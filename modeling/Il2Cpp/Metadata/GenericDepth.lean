import Il2Cpp.Metadata.TypeSubst

/-!
# The depth of generic instances

`RecursiveGenericDepthFor` counts how deep generic instances are nested.  It only looks at the
arguments that are generic instances themselves, not into the element types of arrays and pointers.

* `recursiveGenericDepthFor_congr` : equal types have the same depth.
-/

namespace Il2Cpp

namespace Il2CppType

variable {H P : Type}

mutual

/-- `RecursiveGenericDepthFor` on the generic class of a type; other types do not count.  The
context of a generic class has no method instantiation. -/
def recursiveGenericDepthFor : Il2CppType H P → ℕ
  | .genericinst _ _ (some typeArgv) => maximumDepth typeArgv + 1
  -- an instance that is NULL has depth 0
  | _ => 0

/-- The loop of `RecursiveGenericDepthFor` over the arguments of an instance. -/
def maximumDepth : List (Il2CppType H P) → ℕ
  | [] => 0
  | a :: as => max (recursiveGenericDepthFor a) (maximumDepth as)

end

/-- `RecursiveGenericDepthFor` on an instance. -/
def instDepth (inst : Option (List (Il2CppType H P))) : ℕ :=
  inst.elim 0 fun typeArgv => maximumDepth typeArgv + 1

theorem maximumDepth_eq (as : List (Il2CppType H P)) :
    maximumDepth as = (as.map recursiveGenericDepthFor).foldr max 0 := by
  induction as with
  | nil => rfl
  | cons a as ih => rw [maximumDepth, ih, List.map_cons, List.foldr_cons]

variable [LinearOrder H] [LinearOrder P]

theorem recursiveGenericDepthFor_congr {t u : Il2CppType H P} (h : sortKey t = sortKey u) :
    recursiveGenericDepthFor t = recursiveGenericDepthFor u := by
  induction t using induction_args generalizing u with
  | simple | valuetype | klass | ptr | szarray | array | genericNull | var | mvar =>
    cases matches_of_sortKey_eq h; rfl
  | genericinst b g i ih =>
    cases matches_of_sortKey_eq h with
    | genericinst _ hl hg hi =>
      rw [recursiveGenericDepthFor, recursiveGenericDepthFor, maximumDepth_eq, maximumDepth_eq,
        map_congr_of_map_sortKey (map_sortKey_eq_of_compareArgs hl hi) fun a ha b => ih a ha]

theorem instDepth_congr {as bs : List (Il2CppType H P)} (h : as.map sortKey = bs.map sortKey) :
    instDepth (some as) = instDepth (some bs) := by
  rw [instDepth, instDepth, Option.elim_some, Option.elim_some, maximumDepth_eq, maximumDepth_eq,
    map_congr_of_map_sortKey h fun a _ b => recursiveGenericDepthFor_congr]

end Il2CppType

end Il2Cpp
