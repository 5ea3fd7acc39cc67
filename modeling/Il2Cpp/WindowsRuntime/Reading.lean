import Il2Cpp.WindowsRuntime.TypeName

/-!
# What a Windows Runtime type name denotes

The grammar of the names, and that `GetClassFromMetadataTypeName` reads it.

* `Denotes` : a name denotes a class.  The names are those of the primitive types, the full names
  of the tables, and the names of arrays, of boxed values and of generic instances, which are made
  of the names of their parts.
* `Balanced` : the loop that cuts the arguments runs over a text without cutting it.
* `Denotes.reads` : the class that a name denotes is the one that is read, whatever the fuel above
  the length of the name.
* `readMetadataTypeName_eq` : the result does not depend on the fuel above that length, for any
  name.
-/

namespace Il2Cpp

namespace WindowsRuntime

namespace Metadata

variable {H P : Type} (md : Metadata H P)

/-! ### The grammar -/

/-- A full name: it has a dot, and none of the characters of the names of generic instances. -/
structure IsFullName (n : List Char) : Prop where
  dot : '.' ∈ n
  lt : '<' ∉ n
  gt : '>' ∉ n
  comma : ',' ∉ n

/-- The name says after its backtick that there are `k` type arguments. -/
def HasArity (n : List Char) (k : ℕ) : Prop :=
  ∃ base digits, n = base ++ '\x60' :: digits ∧ '\x60' ∉ base ∧
    StringView.Denotes (digits.map fun c => (c.toNat : ℤ)) k

/-- The interface that the name of an array is made of. -/
def iReferenceArrayName : List Char := "Windows.Foundation.IReferenceArray`1".toList

/-- The interface that the name of a boxed value is made of. -/
def iReferenceName : List Char := "Windows.Foundation.IReference`1".toList

/-- A part of a name that denotes a class, with its kind. -/
structure Part (H P : Type) where
  kind : TypeKind
  name : List Char
  type : Il2CppType H P

/-- The name denotes the class, as a primitive type or by the metadata. -/
inductive Denotes : TypeKind → List Char → Il2CppType H P → Prop
  | primitive {n c} (h : md.classFromPrimitiveTypeName n = some c) : Denotes .primitive n c
  | full {n c} (hn : IsFullName n) (h : md.classFromFullName n = some c) : Denotes .metadata n c
  | array {k n c} (h : Denotes k n c) :
      Denotes .metadata (kArrayTypePrefix ++ n ++ ['>']) (.szarray false c)
  | boxed {k n c} (h : Denotes k n c) :
      Denotes .metadata (kIReferencePrefix ++ n ++ ['>'])
        (.genericinst false (.valuetype false md.genericNullableClass) (some [c]))
  | genericInstance {n g} {parts : List (Part H P)} (hne : parts ≠ []) (hn : IsFullName n)
      (harray : n ≠ iReferenceArrayName) (hboxed : n ≠ iReferenceName)
      (harity : HasArity n parts.length) (hg : md.classFromFullName n = some g)
      (hgeneric : md.isGeneric g) (h : ∀ p ∈ parts, Denotes p.kind p.name p.type) :
      Denotes .metadata (instanceName n (parts.map Part.name))
        (.genericinst false g (some (parts.map Part.type)))

/-! ### Cutting the arguments -/

/-- At a depth of `k` or more, the loop runs over the text without cutting it. -/
def Balanced (k : ℕ) (s : List Char) : Prop :=
  ∀ (depth : ℕ) (argument rest : List Char), k ≤ depth → rest ≠ [] →
    splitArguments depth argument (s ++ rest) = splitArguments depth (argument ++ s) rest

theorem Balanced.mono {k l : ℕ} {s : List Char} (h : Balanced k s) (hkl : k ≤ l) : Balanced l s :=
  fun depth argument rest hdepth => h depth argument rest (hkl.trans hdepth)

theorem balanced_nil {k : ℕ} : Balanced k [] := by
  intro depth argument rest _ _
  rw [List.nil_append, List.append_nil]

theorem Balanced.append {k : ℕ} {s t : List Char} (hs : Balanced k s) (ht : Balanced k t) :
    Balanced k (s ++ t) := by
  intro depth argument rest hdepth hrest
  rw [List.append_assoc, hs _ _ _ hdepth (List.append_ne_nil_of_right_ne_nil t hrest),
    ht _ _ _ hdepth hrest, List.append_assoc]

theorem balanced_singleton {c : Char} (hlt : c ≠ '<') (hgt : c ≠ '>') (hcomma : c ≠ ',') :
    Balanced 0 [c] := by
  intro depth argument rest _ _
  simp [splitArguments, hlt, hgt, hcomma]

theorem balanced_comma : Balanced 1 [','] := by
  intro depth argument rest hdepth _
  have hne : depth ≠ 0 := by omega
  simp [splitArguments, hne]

theorem balanced_of_notMem {s : List Char} (hlt : '<' ∉ s) (hgt : '>' ∉ s) (hcomma : ',' ∉ s) :
    Balanced 0 s := by
  induction s with
  | nil => exact balanced_nil
  | cons c s ih =>
    rw [List.mem_cons, not_or] at hlt hgt hcomma
    exact (balanced_singleton (Ne.symm hlt.1) (Ne.symm hgt.1) (Ne.symm hcomma.1)).append
      (ih hlt.2 hgt.2 hcomma.2)

theorem IsFullName.balanced {n : List Char} (hn : IsFullName n) : Balanced 0 n :=
  balanced_of_notMem hn.lt hn.gt hn.comma

theorem balanced_intercalate {ns : List (List Char)} (h : ∀ n ∈ ns, Balanced 0 n) :
    Balanced 1 (List.intercalate [','] ns) := by
  induction ns with
  | nil => exact balanced_nil
  | cons n ns ih =>
    obtain ⟨hn, hns⟩ := List.forall_mem_cons.1 h
    have hn := hn.mono (Nat.zero_le 1)
    rcases eq_or_ne ns [] with rfl | hne
    · rwa [List.intercalate_singleton]
    · rw [List.intercalate_cons_of_ne_nil hne]
      exact (hn.append balanced_comma).append (ih hns)

theorem Balanced.bracket {s : List Char} (hs : Balanced 1 s) :
    Balanced 0 ('<' :: (s ++ ['>'])) := by
  intro depth argument rest _ hrest
  have hdepth : ((depth : ℤ) + 1) = ((depth + 1 : ℕ) : ℤ) := by push_cast; rfl
  have hback : (((depth + 1 : ℕ) : ℤ) - 1) = depth := by push_cast; ring
  rw [List.cons_append, splitArguments, if_pos rfl, hdepth, List.append_assoc,
    hs _ _ _ (Nat.le_add_left 1 depth) (by simp), List.singleton_append, splitArguments,
    if_neg (by decide), if_pos ⟨rfl, hrest⟩, hback]
  simp

theorem balanced_instanceName {n : List Char} {ns : List (List Char)} (hn : IsFullName n)
    (h : ∀ m ∈ ns, Balanced 0 m) : Balanced 0 (instanceName n ns) :=
  hn.balanced.append (balanced_intercalate h).bracket

theorem balanced_reference {start n m : List Char} (hm : IsFullName m)
    (hstart : start = m ++ ['<']) (hn : Balanced 0 n) : Balanced 0 (start ++ n ++ ['>']) := by
  have h : Balanced 0 (instanceName m [n]) := balanced_instanceName hm (by simpa using hn)
  simpa [instanceName, hstart] using h

theorem splitArguments_intercalate {ns : List (List Char)} (hne : ns ≠ [])
    (h : ∀ n ∈ ns, Balanced 0 n) :
    splitArguments 0 [] (List.intercalate [','] ns ++ ['>']) = ns := by
  induction ns with
  | nil => exact absurd rfl hne
  | cons n ns ih =>
    obtain ⟨hn, hns⟩ := List.forall_mem_cons.1 h
    have hn := hn 0 []
    rw [Nat.cast_zero] at hn
    rcases eq_or_ne ns [] with rfl | hne
    · rw [List.intercalate_singleton, hn _ le_rfl (List.cons_ne_nil _ _)]
      simp [splitArguments]
    · rw [List.intercalate_cons_of_ne_nil hne, List.append_assoc, List.append_assoc,
        hn _ le_rfl (by simp), List.singleton_append, splitArguments, if_neg (by decide),
        if_neg (by simp), if_pos (by simp), ih hne hns]
      simp

/-! ### Searching a name -/

theorem findIdx?_append_cons {s t : List Char} {c : Char} (hs : c ∉ s) :
    (s ++ c :: t).findIdx? (· = c) = some s.length := by
  have hnone : s.findIdx? (· = c) = none := by
    rw [List.findIdx?_eq_none_iff]
    rintro d hd
    exact decide_eq_false fun heq => hs (heq ▸ hd)
  rw [List.findIdx?_append, hnone, Option.none_or, List.findIdx?_cons, decide_eq_true rfl]
  simp

theorem find_append {r s t : List Char} {c : Char} (hs : c ∉ s) :
    find (r ++ (s ++ c :: t)) c r.length = some (r.length + s.length) := by
  rw [find, List.drop_left, findIdx?_append_cons hs, Option.map_some]

/-! In a text with two separators, `s` is before the first, `u` is between them and `t` is after the
second. -/

theorem find_first {s t : List Char} {c : Char} (hs : c ∉ s) :
    find (s ++ c :: t) c 0 = some s.length := by
  simpa using find_append (r := []) (t := t) hs

theorem find_second {s u t : List Char} {c d : Char} (hu : d ∉ u) :
    find (s ++ c :: (u ++ d :: t)) d (s.length + 1) = some (s.length + 1 + u.length) := by
  simpa using find_append (r := s ++ [c]) (t := t) hu

theorem take_between (s u t : List Char) (c d : Char) :
    ((s ++ c :: (u ++ d :: t)).drop (s.length + 1)).take u.length = u := by
  have hsplit : s ++ c :: (u ++ d :: t) = (s ++ [c]) ++ (u ++ d :: t) := by simp
  rw [hsplit, List.drop_left' (by simp), List.take_left]

theorem take_second (s u t : List Char) (c d : Char) :
    (s ++ c :: (u ++ d :: t)).take (s.length + 1 + u.length) = s ++ c :: u := by
  have hsplit : s ++ c :: (u ++ d :: t) = (s ++ c :: u) ++ d :: t := by simp
  rw [hsplit, List.take_left' (by simp only [List.length_append, List.length_cons]; omega)]

theorem drop_second (s u t : List Char) (c d : Char) :
    (s ++ c :: (u ++ d :: t)).drop (s.length + 1 + u.length + 1) = t := by
  have hsplit : s ++ c :: (u ++ d :: t) = (s ++ c :: (u ++ [d])) ++ t := by simp
  rw [hsplit, List.drop_left' (by
    simp only [List.length_append, List.length_cons, List.length_nil]; omega)]

theorem rfind_append {s t : List Char} {c : Char} (ht : c ∉ t) :
    rfind (s ++ c :: t) c = some s.length := by
  have hreverse : (s ++ c :: t).reverse = t.reverse ++ c :: s.reverse := by simp
  rw [rfind, hreverse, findIdx?_append_cons (by simpa using ht), Option.map_some,
    List.length_append, List.length_cons, List.length_reverse]
  congr 1
  omega

theorem startsWith_append (s t : List Char) : startsWith (s ++ t) s = true :=
  List.isPrefixOf_iff_prefix.2 (List.prefix_append s t)

theorem getLast?_append_singleton (s : List Char) (c : Char) : (s ++ [c]).getLast? = some c := by
  simp

theorem IsFullName.getLast?_ne {n : List Char} (hn : IsFullName n) : n.getLast? ≠ some '>' :=
  fun h => hn.gt (List.mem_of_getLast? h)

/-! ### Reading the parts -/

theorem classFromPrimitiveTypeName_of_mem {n : List Char} {x : Char}
    (hx : x ∈ ['.', '<', '>', ',']) (h : x ∈ n) : md.classFromPrimitiveTypeName n = none := by
  have hne (m : List Char) (hm : x ∉ m) (c d : Option (Il2CppType H P)) :
      (if n = m then c else d) = d := if_neg fun heq : n = m => hm (heq ▸ h)
  simp only [List.mem_cons, List.not_mem_nil, or_false] at hx
  rcases hx with rfl | rfl | rfl | rfl
  all_goals
    simp (disch := decide) only [classFromPrimitiveTypeName, hne]
    split <;> rfl

theorem classFromPrimitiveTypeName_of_dot {n : List Char} (h : '.' ∈ n) :
    md.classFromPrimitiveTypeName n = none :=
  md.classFromPrimitiveTypeName_of_mem (by simp) h

theorem balanced_of_primitive {n : List Char} {c : Il2CppType H P}
    (h : md.classFromPrimitiveTypeName n = some c) : Balanced 0 n := by
  have hmem {x : Char} (hx : x ∈ ['.', '<', '>', ',']) : x ∉ n := fun hn => by
    rw [md.classFromPrimitiveTypeName_of_mem hx hn] at h
    cases h
  exact balanced_of_notMem (hmem (by simp)) (hmem (by simp)) (hmem (by simp))

variable (read : List Char → Option (Il2CppType H P))

theorem classFromPartName_of_dot {n : List Char} (h : '.' ∈ n) :
    md.classFromPartName read n = read n := by
  rw [classFromPartName, md.classFromPrimitiveTypeName_of_dot h]

theorem classFromPartName_of_primitive {n : List Char} {c : Il2CppType H P}
    (h : md.classFromPrimitiveTypeName n = some c) : md.classFromPartName read n = some c := by
  rw [classFromPartName, h]

theorem kArrayTypePrefix_eq :
    kArrayTypePrefix = kArrayTypeOrIReferencePrefix ++ kArrayTypePostprefix := by rfl

theorem kIReferencePrefix_eq :
    kIReferencePrefix = kArrayTypeOrIReferencePrefix ++ kIReferencePostprefix := by rfl

theorem kArrayTypePrefix_eq_name : kArrayTypePrefix = iReferenceArrayName ++ ['<'] := by rfl

theorem kIReferencePrefix_eq_name : kIReferencePrefix = iReferenceName ++ ['<'] := by rfl

theorem isFullName_iReferenceArrayName : IsFullName iReferenceArrayName := by
  constructor <;> decide

theorem isFullName_iReferenceName : IsFullName iReferenceName := by
  constructor <;> decide

theorem take_drop_between (start n : List Char) :
    ((start ++ n ++ ['>']).drop start.length).take
      ((start ++ n ++ ['>']).length - (start.length + 1)) = n := by
  have hlength : (start ++ n ++ ['>']).length - (start.length + 1) = n.length := by
    simp only [List.length_append, List.length_singleton]
    omega
  rw [hlength, List.append_assoc, List.drop_left, List.take_left]

theorem classFromReferenceName_array (n : List Char) :
    md.classFromReferenceName read (kArrayTypePrefix ++ n ++ ['>']) =
      (md.classFromPartName read n).map fun elementClass => .szarray false elementClass := by
  have hsplit : kArrayTypePrefix ++ n ++ ['>'] =
      kArrayTypeOrIReferencePrefix ++ ( kArrayTypePostprefix ++ (n ++ ['>'])) := by
    rw [kArrayTypePrefix_eq, List.append_assoc, List.append_assoc]
  have hstart : startsWith (kArrayTypePrefix ++ n ++ ['>']) kArrayTypeOrIReferencePrefix = true := by
    rw [hsplit, startsWith_append]
  have hrest : startsWith ((kArrayTypePrefix ++ n ++ ['>']).drop
      kArrayTypeOrIReferencePrefix.length) kArrayTypePostprefix = true := by
    rw [hsplit, List.drop_left, startsWith_append]
  simp only [classFromReferenceName, hstart, hrest, take_drop_between, ↓reduceIte]

theorem classFromReferenceName_boxed (n : List Char) :
    md.classFromReferenceName read (kIReferencePrefix ++ n ++ ['>']) =
      (md.classFromPartName read n).map fun boxedClass =>
        .genericinst false (.valuetype false md.genericNullableClass) (some [boxedClass]) := by
  have hsplit : kIReferencePrefix ++ n ++ ['>'] =
      kArrayTypeOrIReferencePrefix ++ ( kIReferencePostprefix ++ (n ++ ['>'])) := by
    rw [kIReferencePrefix_eq, List.append_assoc, List.append_assoc]
  have hstart : startsWith (kIReferencePrefix ++ n ++ ['>']) kArrayTypeOrIReferencePrefix = true := by
    rw [hsplit, startsWith_append]
  have hdrop : (kIReferencePrefix ++ n ++ ['>']).drop kArrayTypeOrIReferencePrefix.length =
      kIReferencePostprefix ++ (n ++ ['>']) := by
    rw [hsplit, List.drop_left]
  have harray : startsWith ( kIReferencePostprefix ++ (n ++ ['>'])) kArrayTypePostprefix = false :=
    rfl
  simp only [classFromReferenceName, hstart, hdrop, harray, startsWith_append, take_drop_between,
    ↓reduceIte, Bool.false_eq_true]

theorem eq_of_startsWith {m n r : List Char} (hm : '<' ∉ m) (hn : '<' ∉ n)
    (h : startsWith (n ++ '<' :: r) (m ++ ['<']) = true) : m = n := by
  obtain ⟨t, ht⟩ := List.isPrefixOf_iff_prefix.1 h
  rw [List.append_assoc, List.singleton_append] at ht
  have hlength := congrArg (fun s => s.findIdx? (· = '<')) ht
  simp only [findIdx?_append_cons hm, findIdx?_append_cons hn, Option.some.injEq] at hlength
  exact List.append_inj_left ht hlength

theorem startsWith_append_of_drop {s a b : List Char} (ha : startsWith s a = true)
    (hb : startsWith (s.drop a.length) b = true) : startsWith s (a ++ b) = true := by
  obtain ⟨t, rfl⟩ := List.isPrefixOf_iff_prefix.1 ha
  rw [List.drop_left] at hb
  obtain ⟨u, rfl⟩ := List.isPrefixOf_iff_prefix.1 hb
  rw [← List.append_assoc]
  exact startsWith_append (a ++ b) u

theorem classFromReferenceName_instance {n : List Char} (hn : IsFullName n)
    (harray : n ≠ iReferenceArrayName) (hboxed : n ≠ iReferenceName) (ns : List (List Char)) :
    md.classFromReferenceName read (instanceName n ns) = none := by
  unfold classFromReferenceName
  split_ifs with hstart
  · dsimp only
    split_ifs with ha hb
    · have h := startsWith_append_of_drop hstart ha
      rw [← kArrayTypePrefix_eq, kArrayTypePrefix_eq_name] at h
      exact absurd (eq_of_startsWith isFullName_iReferenceArrayName.lt hn.lt h).symm harray
    · have h := startsWith_append_of_drop hstart hb
      rw [← kIReferencePrefix_eq, kIReferencePrefix_eq_name] at h
      exact absurd (eq_of_startsWith isFullName_iReferenceName.lt hn.lt h).symm hboxed
    · rfl
  · rfl

theorem mapM_parts {f : List Char → Option (Il2CppType H P)} {parts : List (Part H P)}
    (h : ∀ p ∈ parts, f p.name = some p.type) :
    (parts.map Part.name).mapM f = some (parts.map Part.type) := by
  induction parts with
  | nil => rfl
  | cons p parts ih =>
    obtain ⟨hp, hparts⟩ := List.forall_mem_cons.1 h
    simp [hp, ih hparts]

theorem genericInstanceClass_instanceName {n : List Char} {g : Il2CppType H P}
    {parts : List (Part H P)} (hne : parts ≠ []) (hn : IsFullName n)
    (harity : HasArity n parts.length) (hbalanced : ∀ p ∈ parts, Balanced 0 p.name)
    (hg : read n = some g) (hgeneric : md.isGeneric g)
    (hread : ∀ p ∈ parts, md.classFromPartName read p.name = some p.type) :
    md.genericInstanceClass read (instanceName n (parts.map Part.name)) =
      some (.genericinst false g (some (parts.map Part.type))) := by
  obtain ⟨base, digits, rfl, hbase, hdigits⟩ := harity
  have hpos : 0 < parts.length := List.length_pos_of_ne_nil hne
  have hcount := StringView.tryParseAsInt_of_denotes (by exact_mod_cast hpos) hdigits
  have hdigit : '<' ∉ digits := fun h => hn.lt (by simp [h])
  set tail := List.intercalate [','] (parts.map Part.name) ++ ['>'] with htail
  have hname : instanceName (base ++ '\x60' :: digits) (parts.map Part.name) =
      base ++ '\x60' :: (digits ++ '<' :: tail) := by
    simp [instanceName, htail]
  -- where the backtick and the bracket are, and what is between them
  have hbacktick := find_first (t := digits ++ '<' :: tail) hbase
  have hbracket := find_second (s := base) (c := '\x60') (t := tail) hdigit
  have hdigits' : ((base ++ '\x60' :: (digits ++ '<' :: tail)).drop (base.length + 1)).take
      (base.length + 1 + digits.length - base.length - 1) = digits := by
    have hsub : base.length + 1 + digits.length - base.length - 1 = digits.length := by omega
    rw [hsub, take_between]
  have hcut : splitArguments 0 [] tail = parts.map Part.name :=
    splitArguments_intercalate (by simpa using hne) (by simpa using hbalanced)
  have hone : (1 : ℤ) ≤ parts.length := by exact_mod_cast hpos
  rw [hname]
  simp only [genericInstanceClass, hbacktick, hbracket, hdigits', hcount, take_second, hg,
    drop_second, hcut, mapM_parts hread, hgeneric, List.length_map, hone, guard_true,
    Option.bind_eq_bind, Option.bind_some, Option.pure_def]

end Metadata

/-! ### Reading what a name denotes -/

namespace Metadata

variable (md : Metadata H P)

theorem readMetadataTypeName_of_getLast?_ne {fuel : ℕ} {n : List Char}
    (h : n.getLast? ≠ some '>') :
    md.readMetadataTypeName (fuel + 1) n = md.classFromFullName n := by
  rw [readMetadataTypeName, if_neg h, Option.none_or]

theorem readMetadataTypeName_of_reference {fuel : ℕ} {n : List Char} {c : Il2CppType H P}
    (hlast : n.getLast? = some '>')
    (h : md.classFromReferenceName (md.readMetadataTypeName fuel) n = some c) :
    md.readMetadataTypeName (fuel + 1) n = some c := by
  rw [readMetadataTypeName, if_pos hlast, h, Option.some_or, Option.some_or]

theorem readMetadataTypeName_of_instance {fuel : ℕ} {n : List Char} {c : Il2CppType H P}
    (hlast : n.getLast? = some '>')
    (hreference : md.classFromReferenceName (md.readMetadataTypeName fuel) n = none)
    (h : md.genericInstanceClass (md.readMetadataTypeName fuel) n = some c) :
    md.readMetadataTypeName (fuel + 1) n = some c := by
  rw [readMetadataTypeName, if_pos hlast, hreference, h, Option.none_or, Option.some_or]

/-- The name is read as the class, with any fuel above its length: as a part of another name, and
by itself when it is not the name of a primitive type. -/
structure Reads (kind : TypeKind) (n : List Char) (c : Il2CppType H P) : Prop where
  balanced : Balanced 0 n
  part {fuel : ℕ} : n.length < fuel →
    md.classFromPartName (md.readMetadataTypeName fuel) n = some c
  metadata {fuel : ℕ} : kind = .metadata → n.length < fuel → md.readMetadataTypeName fuel n = some c

variable {md}

theorem reads_metadata {n : List Char} {c : Il2CppType H P} (hbalanced : Balanced 0 n)
    (hdot : '.' ∈ n)
    (h : ∀ fuel, n.length ≤ fuel → md.readMetadataTypeName (fuel + 1) n = some c) :
    md.Reads .metadata n c := by
  have hread {fuel : ℕ} (hfuel : n.length < fuel) : md.readMetadataTypeName fuel n = some c := by
    cases fuel with
    | zero => exact absurd hfuel (Nat.not_lt_zero _)
    | succ fuel => exact h fuel (Nat.lt_succ_iff.1 hfuel)
  refine ⟨hbalanced, fun hfuel => ?_, fun _ hfuel => hread hfuel⟩
  rw [md.classFromPartName_of_dot _ hdot, hread hfuel]

theorem reads_reference {start m n : List Char} {c : Il2CppType H P} (hm : IsFullName m)
    (hstart : start = m ++ ['<']) (hbalanced : Balanced 0 n)
    (h : ∀ fuel, n.length < fuel → md.classFromReferenceName (md.readMetadataTypeName fuel)
      (start ++ n ++ ['>']) = some c) :
    md.Reads .metadata (start ++ n ++ ['>']) c := by
  refine reads_metadata (balanced_reference hm hstart hbalanced) ?_ fun fuel hfuel => ?_
  · simp [hstart, hm.dot]
  · refine md.readMetadataTypeName_of_reference (getLast?_append_singleton _ _) (h fuel ?_)
    simp only [List.length_append, List.length_singleton] at hfuel
    omega

theorem length_le_intercalate {n : List Char} {ns : List (List Char)} (h : n ∈ ns) :
    n.length ≤ (List.intercalate [','] ns).length := by
  induction ns with
  | nil => cases h
  | cons m ns ih =>
    rcases eq_or_ne ns [] with rfl | hne
    · rw [List.mem_singleton.1 h, List.intercalate_singleton]
    · rw [List.intercalate_cons_of_ne_nil hne, List.append_assoc, List.length_append,
        List.length_append]
      rcases List.mem_cons.1 h with rfl | h
      · exact Nat.le_add_right _ _
      · have := ih h
        omega

/-- **Reading a name**: the class that a name denotes is the one that is read. -/
theorem Denotes.reads {kind : TypeKind} {n : List Char} {c : Il2CppType H P}
    (h : md.Denotes kind n c) : md.Reads kind n c := by
  induction h with
  | primitive h =>
    exact ⟨md.balanced_of_primitive h, fun _ => md.classFromPartName_of_primitive _ h,
      fun hkind => nomatch hkind⟩
  | full hn h =>
    refine reads_metadata hn.balanced hn.dot fun fuel _ => ?_
    rw [md.readMetadataTypeName_of_getLast?_ne hn.getLast?_ne, h]
  | array h ih =>
    refine reads_reference isFullName_iReferenceArrayName kArrayTypePrefix_eq_name ih.balanced
      fun fuel hfuel => ?_
    rw [md.classFromReferenceName_array, ih.part hfuel, Option.map_some]
  | boxed h ih =>
    refine reads_reference isFullName_iReferenceName kIReferencePrefix_eq_name ih.balanced
      fun fuel hfuel => ?_
    rw [md.classFromReferenceName_boxed, ih.part hfuel, Option.map_some]
  | @genericInstance n g parts hne hn harray hboxed harity hg hgeneric h ih =>
    have hbalanced : ∀ p ∈ parts, Balanced 0 p.name := fun p hp => (ih p hp).balanced
    have hlast : (instanceName n (parts.map Part.name)).getLast? = some '>' := by
      rw [instanceName, ← List.cons_append, ← List.append_assoc]
      exact getLast?_append_singleton _ _
    refine reads_metadata (balanced_instanceName hn (by simpa using hbalanced))
      (List.mem_append_left _ hn.dot) fun fuel hfuel => ?_
    rw [instanceName, List.length_append, List.length_cons, List.length_append,
      List.length_singleton] at hfuel
    refine md.readMetadataTypeName_of_instance hlast
      (md.classFromReferenceName_instance _ hn harray hboxed _)
      (md.genericInstanceClass_instanceName _ hne hn harity hbalanced ?_ hgeneric fun p hp => ?_)
    · cases fuel with
      | zero => omega
      | succ fuel => rw [md.readMetadataTypeName_of_getLast?_ne hn.getLast?_ne, hg]
    · have hlength := length_le_intercalate (List.mem_map_of_mem (f := Part.name) hp)
      exact (ih p hp).part (by omega)

theorem Denotes.classFromMetadataTypeName_eq {n : List Char} {c : Il2CppType H P}
    (h : md.Denotes .metadata n c) : md.classFromMetadataTypeName n = some c :=
  h.reads.metadata rfl (Nat.lt_succ_self _)

theorem Denotes.classFromPrimitiveTypeName_eq {n : List Char} {c : Il2CppType H P}
    (h : md.Denotes .primitive n c) : md.classFromPrimitiveTypeName n = some c := by
  cases h with
  | primitive h => exact h

/-! ### The fuel -/

variable (md) in
theorem classFromPartName_congr {read read' : List Char → Option (Il2CppType H P)} {n : List Char}
    (h : read n = read' n) : md.classFromPartName read n = md.classFromPartName read' n := by
  rw [classFromPartName, classFromPartName, h]

variable (md) in
theorem classFromReferenceName_congr {read read' : List Char → Option (Il2CppType H P)}
    {n : List Char} (hne : n ≠ []) (h : ∀ m, m.length < n.length → read m = read' m) :
    md.classFromReferenceName read n = md.classFromReferenceName read' n := by
  have hpos := List.length_pos_of_ne_nil hne
  have hpart (k : ℕ) : md.classFromPartName read ((n.drop k).take (n.length - (k + 1))) =
      md.classFromPartName read' ((n.drop k).take (n.length - (k + 1))) := by
    refine md.classFromPartName_congr (h _ ?_)
    rw [List.length_take]
    omega
  simp only [classFromReferenceName, hpart]

theorem find_lt {s : List Char} {c : Char} {i j : ℕ} (h : find s c i = some j) : j < s.length := by
  rw [find, Option.map_eq_some_iff] at h
  obtain ⟨k, hk, rfl⟩ := h
  have hk := (List.findIdx?_eq_some_iff_getElem.1 hk).1
  rw [List.length_drop] at hk
  omega

theorem length_le_of_mem_splitArguments {depth : ℤ} {argument s m : List Char}
    (h : m ∈ splitArguments depth argument s) : m.length ≤ argument.length + s.length := by
  induction s generalizing depth argument with
  | nil => cases h
  | cons c s ih =>
    have hnext {d : ℤ} (h : m ∈ splitArguments d (argument ++ [c]) s) :
        m.length ≤ argument.length + (c :: s).length := by
      have := ih h
      simp only [List.length_append, List.length_cons, List.length_nil] at this ⊢
      omega
    rw [splitArguments] at h
    split_ifs at h with hlt hgt hcut
    · exact hnext h
    · exact hnext h
    · rcases List.mem_cons.1 h with rfl | h
      · exact Nat.le_add_right _ _
      · have := ih h
        simp only [List.length_cons, List.length_nil] at this ⊢
        omega
    · exact hnext h

theorem mapM_congr {f f' : List Char → Option (Il2CppType H P)} {ns : List (List Char)}
    (h : ∀ n ∈ ns, f n = f' n) : ns.mapM f = ns.mapM f' := by
  induction ns with
  | nil => rfl
  | cons n ns ih =>
    obtain ⟨hn, hns⟩ := List.forall_mem_cons.1 h
    rw [List.mapM_cons, List.mapM_cons, hn, ih hns]

variable (md) in
theorem genericInstanceClass_congr {read read' : List Char → Option (Il2CppType H P)}
    {n : List Char} (h : ∀ m, m.length < n.length → read m = read' m) :
    md.genericInstanceClass read n = md.genericInstanceClass read' n := by
  simp only [genericInstanceClass, Option.bind_eq_bind]
  refine Option.bind_congr fun i hi => Option.bind_congr fun j hj =>
    Option.bind_congr fun count _ => Option.bind_congr fun _ _ => ?_
  have hj := find_lt hj
  have hdefinition : read (n.take j) = read' (n.take j) := h _ (by rw [List.length_take]; omega)
  have harguments : (splitArguments 0 [] (n.drop (j + 1))).mapM (md.classFromPartName read) =
      (splitArguments 0 [] (n.drop (j + 1))).mapM (md.classFromPartName read') := by
    refine mapM_congr fun m hm => md.classFromPartName_congr (h m ?_)
    have := length_le_of_mem_splitArguments hm
    rw [List.length_nil, List.length_drop] at this
    omega
  rw [hdefinition, harguments]

variable (md) in
theorem readMetadataTypeName_eq {fuel fuel' : ℕ} {n : List Char} (h : n.length < fuel)
    (h' : n.length < fuel') : md.readMetadataTypeName fuel n = md.readMetadataTypeName fuel' n := by
  induction fuel generalizing fuel' n with
  | zero => exact absurd h (Nat.not_lt_zero _)
  | succ fuel ih =>
    cases fuel' with
    | zero => exact absurd h' (Nat.not_lt_zero _)
    | succ fuel' =>
      have hparts (m : List Char) (hm : m.length < n.length) :
          md.readMetadataTypeName fuel m = md.readMetadataTypeName fuel' m :=
        ih (by omega) (by omega)
      by_cases hlast : n.getLast? = some '>'
      · have hne : n ≠ [] := by
          rintro rfl
          cases hlast
        rw [readMetadataTypeName, readMetadataTypeName,
          md.classFromReferenceName_congr hne hparts, md.genericInstanceClass_congr hparts]
      · rw [md.readMetadataTypeName_of_getLast?_ne hlast,
          md.readMetadataTypeName_of_getLast?_ne hlast]

end Metadata

end WindowsRuntime

end Il2Cpp
