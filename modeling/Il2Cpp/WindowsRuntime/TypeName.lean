import Il2Cpp.Metadata.Il2CppType
import Il2Cpp.Text.ParseInt

/-!
# Type names of the Windows Runtime

`MarshalTypeToNative` and `MarshalTypeFromNative` of `WindowsRuntime.cpp`, and what they call.

* `typeKind`, `metadataTypeName` : the writing side.  A type is `Primitive`, `Metadata` or
  `Custom`; an array is named after the interface `IReferenceArray` of its elements.
* `classFromMetadataTypeName` : the reading side, a recursive parser.  A name that ends in `>` is
  tried as an array, as a boxed value and as a generic instance, and then any name is looked up.

A class stands here as its `byval_arg`, the type description that is not a reference.  A name is the
list of its characters: the conversions between the encodings lose nothing.
-/

namespace Il2Cpp

namespace WindowsRuntime

variable {H P : Type}

/-- `Il2CppWindowsRuntimeTypeKind`. -/
inductive TypeKind where
  | primitive | metadata | custom
  deriving DecidableEq

/-- The tables and the classes that the names are computed from. -/
structure Metadata (H P : Type) where
  /-- The `namespaze` of a class. -/
  namespaze : Il2CppType H P → List Char
  /-- The `name` of a class. -/
  name : Il2CppType H P → List Char
  /-- The name of the image of a class. -/
  imageName : Il2CppType H P → List Char
  /-- The `is_generic` flag of a class. -/
  isGeneric : Il2CppType H P → Bool
  /-- `il2cpp_defaults.system_guid_class`. -/
  systemGuidClass : H
  /-- `il2cpp_defaults.generic_nullable_class`. -/
  genericNullableClass : H
  /-- `MetadataCache::GetWindowsRuntimeClass`. -/
  windowsRuntimeClass : List Char → Option (Il2CppType H P)
  /-- `MetadataCache::GetWindowsRuntimeClassName`. -/
  windowsRuntimeClassName : Il2CppType H P → Option (List Char)
  /-- `Image::ClassFromName` in the image of the assembly `WindowsRuntimeMetadata`, given a
  namespace and a name; it finds nothing when there is no such assembly. -/
  classFromName : List Char → List Char → Option (Il2CppType H P)
  /-- The assembly qualified name of a type. -/
  customTypeName : Il2CppType H P → List Char
  /-- `GetTypeFromCustomTypeName`, which raises when it finds nothing. -/
  typeFromCustomTypeName : List Char → Option (Il2CppType H P)

/-- `Class::FromIl2CppType`.  A function pointer has the class of `IntPtr`. -/
def fromIl2CppType : Il2CppType H P → Il2CppType H P
  | .simple _ tag => .simple false (if tag = .fnptr then .i else tag)
  | .valuetype _ h => .valuetype false h
  | .klass _ h => .klass false h
  | .ptr _ e => .ptr false (fromIl2CppType e)
  | .szarray _ e => .szarray false (fromIl2CppType e)
  | .array _ e rank => .array false (fromIl2CppType e) rank
  | .genericinst _ g i => .genericinst false g i
  | .var _ p => .var false p
  | .mvar _ p => .mvar false p

/-- The type definition, which the class of a generic instance takes its name and its image from. -/
def definition : Il2CppType H P → Il2CppType H P
  | .genericinst _ g _ => g
  | t => t

namespace Metadata

variable [DecidableEq H] (md : Metadata H P)

/-! ### The names of types -/

/-- `IsWindowsRuntimePrimitiveType`. -/
def isPrimitive : Il2CppType H P → Bool
  | .simple _ tag => tag ∈ [.boolean, .char, .u1, .i2, .u2, .i4, .u4, .i8, .u8, .r4, .r8, .object,
      .string]
  | .valuetype _ h => h = md.systemGuidClass
  | _ => false

/-- `GetWindowsRuntimePrimitiveTypeName`, and its copy for UTF-8. -/
def primitiveTypeName : Il2CppType H P → List Char
  | .simple _ .boolean => "Boolean".toList
  | .simple _ .char => "Char16".toList
  | .simple _ .u1 => "UInt8".toList
  | .simple _ .i2 => "Int16".toList
  | .simple _ .u2 => "UInt16".toList
  | .simple _ .i4 => "Int32".toList
  | .simple _ .u4 => "UInt32".toList
  | .simple _ .i8 => "Int64".toList
  | .simple _ .u8 => "UInt64".toList
  | .simple _ .r4 => "Single".toList
  | .simple _ .r8 => "Double".toList
  | .simple _ .object => "Object".toList
  | .simple _ .string => "String".toList
  | .valuetype .. => "Guid".toList
  -- IL2CPP_UNREACHABLE
  | _ => []

/-- Whether the table has a Windows Runtime name for the class of a type. -/
def isListed (t : Il2CppType H P) : Bool := (md.windowsRuntimeClassName (fromIl2CppType t)).isSome

/-- Whether a class comes from a Windows Runtime component. -/
def isWindowsRuntimeMetadata (t : Il2CppType H P) : Bool :=
  md.imageName (definition (fromIl2CppType t)) = "WindowsRuntimeMetadata".toList

mutual

/-- `GetWindowsRuntimeTypeKind`.  It does not look at the flags, so that the kind of an element
class is that of the element type. -/
def typeKind (t : Il2CppType H P) : TypeKind :=
  if md.isPrimitive t then .primitive
  else match t with
  | .szarray _ e | .array _ e _ => if typeKind e ≠ .custom then .metadata else .custom
  | .genericinst b g (some i) =>
    if md.isListed (.genericinst b g (some i)) then .metadata
    else if md.isWindowsRuntimeMetadata (.genericinst b g (some i)) then
      if noCustomArgument i then .metadata else .custom
    else .custom
  | t => if md.isListed t ∨ md.isWindowsRuntimeMetadata t then .metadata else .custom

/-- The loop over the type arguments. -/
def noCustomArgument : List (Il2CppType H P) → Bool
  | [] => true
  | a :: as => if typeKind a = .custom then false else noCustomArgument as

end

/-- The namespace and the name of a class, with a dot between them. -/
def fullName (klass : Il2CppType H P) : List Char :=
  md.namespaze (definition klass) ++ '.' :: md.name (definition klass)

def kArrayTypePrefix : List Char := "Windows.Foundation.IReferenceArray`1<".toList

def kIReferencePrefix : List Char := "Windows.Foundation.IReference`1<".toList

def kArrayTypeOrIReferencePrefix : List Char := "Windows.Foundation.IReference".toList

def kArrayTypePostprefix : List Char := "Array`1<".toList

def kIReferencePostprefix : List Char := "`1<".toList

/-- A name with its arguments between angle brackets. -/
def instanceName (name : List Char) (arguments : List (List Char)) : List Char :=
  name ++ '<' :: (List.intercalate [','] arguments ++ ['>'])

mutual

/-- `GetWindowsRuntimeMetadataTypeName` of the class of a type, and its copy for UTF-8. -/
def metadataTypeName : Il2CppType H P → List Char
  | .szarray _ e | .array _ e _ =>
    kArrayTypePrefix ++
      (if md.isPrimitive e then primitiveTypeName e else metadataTypeName e) ++ ['>']
  | .genericinst b g (some i) =>
    match md.windowsRuntimeClassName (fromIl2CppType (.genericinst b g (some i))) with
    | some windowsRuntimeTypeName => windowsRuntimeTypeName
    -- GetWindowsRuntimeTypeNameFromWinmdReference
    | none => instanceName (md.fullName g) (argumentNames i)
  | t =>
    match md.windowsRuntimeClassName (fromIl2CppType t) with
    | some windowsRuntimeTypeName => windowsRuntimeTypeName
    | none => md.fullName (fromIl2CppType t)

/-- The names of the type arguments. -/
def argumentNames : List (Il2CppType H P) → List (List Char)
  | [] => []
  | a :: as =>
    (if md.isPrimitive a then primitiveTypeName a else metadataTypeName a) :: argumentNames as

end

/-- `MarshalTypeToNative`. -/
def marshalTypeToNative : Option (Il2CppType H P) → TypeKind × Option (List Char)
  | none => (.custom, none)
  | some type =>
    match md.typeKind type with
    | .primitive => (.primitive, primitiveTypeName type)
    | .metadata => (.metadata, md.metadataTypeName type)
    | .custom => (.custom, md.customTypeName type)

/-! ### The types of names -/

/-- `StringView::Find`. -/
def find (s : List Char) (c : Char) (startIndex : ℕ) : Option ℕ :=
  ((s.drop startIndex).findIdx? (· = c)).map (startIndex + ·)

/-- `std::string::rfind`. -/
def rfind (s : List Char) (c : Char) : Option ℕ :=
  (s.reverse.findIdx? (· = c)).map (s.length - 1 - ·)

/-- `StringUtils::StartsWith`. -/
def startsWith (s start : List Char) : Bool := start.isPrefixOf s

/-- `GetClassFromPrimitiveTypeName` without the exceptions. -/
def classFromPrimitiveTypeName (typeName : List Char) : Option (Il2CppType H P) :=
  let characterSum := (typeName.map Char.toNat).sum % 2 ^ 32
  match characterSum with
  | 393 => if typeName = "Guid".toList then some (.valuetype false md.systemGuidClass) else none
  | 400 => if typeName = "Int32".toList then some (.simple false .i4) else none
  | 402 => if typeName = "Int16".toList then some (.simple false .i2) else none
  | 405 => if typeName = "Int64".toList then some (.simple false .i8) else none
  | 440 => if typeName = "UInt8".toList then some (.simple false .u1) else none
  | 485 =>
    if typeName = "Char16".toList then some (.simple false .char)
    else if typeName = "UInt32".toList then some (.simple false .u4)
    else none
  | 487 => if typeName = "UInt16".toList then some (.simple false .u2) else none
  | 490 => if typeName = "UInt64".toList then some (.simple false .u8) else none
  | 599 => if typeName = "Object".toList then some (.simple false .object) else none
  | 603 => if typeName = "Double".toList then some (.simple false .r8) else none
  | 610 => if typeName = "Single".toList then some (.simple false .r4) else none
  | 631 => if typeName = "String".toList then some (.simple false .string) else none
  | 704 => if typeName = "Boolean".toList then some (.simple false .boolean) else none
  | _ => none

/-- The end of `GetClassFromMetadataTypeName`: the Windows Runtime class type map, and then the
assembly `WindowsRuntimeMetadata`, with the name split at its last dot. -/
def classFromFullName (typeName : List Char) : Option (Il2CppType H P) :=
  match md.windowsRuntimeClass typeName with
  | some windowsRuntimeClass => some windowsRuntimeClass
  | none =>
    match rfind typeName '.' with
    | some lastDotIndex =>
      md.classFromName (typeName.take lastDotIndex) (typeName.drop (lastDotIndex + 1))
    | none => none

/-- The loop that cuts the arguments of a generic instance: the characters after the opening
bracket, to the last one of the name, the `genericDepth` and the argument so far. -/
def splitArguments (genericDepth : ℤ) (argument : List Char) : List Char → List (List Char)
  | [] => []
  | currentChar :: rest =>
    if currentChar = '<' then splitArguments (genericDepth + 1) (argument ++ [currentChar]) rest
    else if currentChar = '>' ∧ rest ≠ [] then
      splitArguments (genericDepth - 1) (argument ++ [currentChar]) rest
    else if (currentChar = '>' ∨ currentChar = ',') ∧ genericDepth = 0 then
      argument :: splitArguments genericDepth [] rest
    else splitArguments genericDepth (argument ++ [currentChar]) rest

section Read

-- `GetClassFromMetadataTypeName` on the parts of the name
variable (read : List Char → Option (Il2CppType H P))

/-- `GetClassFromPrimitiveOrMetadataTypeName`. -/
def classFromPartName (typeName : List Char) : Option (Il2CppType H P) :=
  match md.classFromPrimitiveTypeName typeName with
  | some klass => some klass
  | none => read typeName

/-- The class of an array or of a boxed value. -/
def classFromReferenceName (typeName : List Char) : Option (Il2CppType H P) :=
  if startsWith typeName kArrayTypeOrIReferencePrefix then
    let rest := typeName.drop kArrayTypeOrIReferencePrefix.length
    if startsWith rest kArrayTypePostprefix then
      let elementTypeName := (typeName.drop kArrayTypePrefix.length).take
        (typeName.length - (kArrayTypePrefix.length + 1))
      (md.classFromPartName read elementTypeName).map fun elementClass => .szarray false elementClass
    else if startsWith rest kIReferencePostprefix then
      let boxedTypeName := (typeName.drop kIReferencePrefix.length).take
        (typeName.length - (kIReferencePrefix.length + 1))
      (md.classFromPartName read boxedTypeName).map fun boxedClass =>
        .genericinst false (.valuetype false md.genericNullableClass) (some [boxedClass])
    else none
  else none

/-- `GetGenericInstanceClassFromMetadataTypeName`. -/
def genericInstanceClass (typeName : List Char) : Option (Il2CppType H P) := do
  let backtickIndex ← find typeName '\x60' 0
  let genericArgumentStartIndex ← find typeName '<' (backtickIndex + 1)
  let genericArgumentCountStr :=
    (typeName.drop (backtickIndex + 1)).take (genericArgumentStartIndex - backtickIndex - 1)
  let genericArgumentCount ←
    (StringView.tryParseAsInt (genericArgumentCountStr.map fun c => (c.toNat : ℤ))).value
  guard (1 ≤ genericArgumentCount)
  let classDefinition ← read (typeName.take genericArgumentStartIndex)
  guard (md.isGeneric classDefinition)
  -- the arguments are stored before their number is compared with the count
  let genericArguments ←
    (splitArguments 0 [] (typeName.drop (genericArgumentStartIndex + 1))).mapM
      (md.classFromPartName read)
  guard ((genericArguments.length : ℤ) = genericArgumentCount)
  return .genericinst false classDefinition (some genericArguments)

end Read

/-- `GetClassFromMetadataTypeName` without the exceptions. -/
def readMetadataTypeName : ℕ → List Char → Option (Il2CppType H P)
  | 0, _ => none
  | fuel + 1, typeName =>
    -- does this type involve generics?
    (if typeName.getLast? = some '>' then
      (md.classFromReferenceName (readMetadataTypeName fuel) typeName).or
        (md.genericInstanceClass (readMetadataTypeName fuel) typeName)
    else none).or (md.classFromFullName typeName)

/-- A part of a name is shorter, so that the length is fuel enough. -/
def classFromMetadataTypeName (typeName : List Char) : Option (Il2CppType H P) :=
  md.readMetadataTypeName (typeName.length + 1) typeName

/-- The exceptions of `MarshalTypeFromNative`. -/
inductive MarshalException where
  | unexpectedTypeKind
  /-- The name in the message. -/
  | typeNotFound (typeName : List Char)
  | typeLoad
  deriving DecidableEq

/-- `MarshalTypeFromNative`. -/
def marshalTypeFromNative :
    TypeKind × Option (List Char) → Except MarshalException (Option (Il2CppType H P))
  | (_, none) => .ok none
  | (.primitive, some typeName) =>
    match md.classFromPrimitiveTypeName typeName with
    | some klass => .ok klass
    | none =>
      if (md.classFromMetadataTypeName typeName).isSome then .error .unexpectedTypeKind
      else .error (.typeNotFound typeName)
  | (.metadata, some typeName) =>
    match md.classFromMetadataTypeName typeName with
    | some klass => .ok klass
    | none =>
      if (md.classFromPrimitiveTypeName typeName).isSome then .error .unexpectedTypeKind
      -- the message has the start of the generic part
      else if typeName.getLast? = some '>' then
        .error (.typeNotFound (typeName.take ((find typeName '<' 0).getD typeName.length)))
      else .error (.typeNotFound typeName)
  | (.custom, some typeName) =>
    match md.typeFromCustomTypeName typeName with
    | some type => .ok type
    | none => .error .typeLoad

end Metadata

end WindowsRuntime

end Il2Cpp
