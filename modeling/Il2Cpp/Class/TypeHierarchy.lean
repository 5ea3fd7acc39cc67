import Mathlib

/-!
# The hierarchy array of a class

`Class::SetupTypeHierarchy` gives each class an array of its bases, from the root down to the class
itself, and stores the length of the array in a `uint8_t`.  `ClassInlines::HasParentUnsafe` then
tests for a base with one look at the array.

* `Parents` : the parents of the classes, without cycles; `Parents.chain` walks up from a class.
* `setupTypeHierarchy` : builds the array of a class, after the one of its parent.
* `hasParentUnsafe` : the test.

The test agrees with the walk as long as no chain is longer than 255
(`hasParent_eq_decide_mem_chain_iff`).  At 256 classes the stored length wraps to 0, and the class
is written in front of its array.
-/

namespace Il2Cpp.TypeHierarchy

variable {C : Type}

/-! ### Parents -/

/-- The `parent` of each class.  No class is above itself: `height` drops from a class to its
parent. -/
structure Parents (C : Type) where
  parent : C → Option C
  height : C → ℕ
  height_lt : ∀ {c p : C}, parent c = some p → height p < height c

namespace Parents

variable (P : Parents C)

/-- A class and its bases, from the class to the root. -/
def chain (c : C) : List C :=
  c :: match _h : P.parent c with
    | none => []
    | some p => chain p
termination_by P.height c
decreasing_by exact P.height_lt _h

/-- The number of classes in the chain. -/
def depth (c : C) : ℕ := (P.chain c).length

variable {P}

theorem chain_of_root {c : C} (h : P.parent c = none) : P.chain c = [c] := by
  rw [chain]
  split <;> simp_all

theorem chain_of_parent {c p : C} (h : P.parent c = some p) : P.chain c = c :: P.chain p := by
  rw [chain]
  split <;> simp_all

theorem depth_of_root {c : C} (h : P.parent c = none) : P.depth c = 1 := by
  rw [depth, chain_of_root h, List.length_singleton]

theorem depth_of_parent {c p : C} (h : P.parent c = some p) : P.depth c = P.depth p + 1 := by
  rw [depth, chain_of_parent h, List.length_cons, depth]

theorem induction {motive : C → Prop}
    (step : ∀ c, (∀ p, P.parent c = some p → motive p) → motive c) (c : C) : motive c :=
  (measure P.height).wf.induction c fun c ih => step c fun p hp => ih p (P.height_lt hp)

theorem depth_pos (c : C) : 0 < P.depth c := by
  rw [depth, chain]
  exact Nat.succ_pos _

theorem chain_suffix {c p : C} (h : p ∈ P.chain c) : P.chain p <:+ P.chain c := by
  induction c using P.induction with
  | step c ih =>
    cases hc : P.parent c with
    | none =>
      rw [chain_of_root hc, List.mem_singleton] at h
      rw [h]
    | some q =>
      rw [chain_of_parent hc, List.mem_cons] at h
      rcases h with rfl | h
      · exact List.suffix_refl _
      · rw [chain_of_parent hc]
        exact (ih q hc h).trans (List.suffix_cons c _)

theorem reverse_chain_depth (c : C) : (P.chain c).reverse[P.depth c - 1]? = some c := by
  have hlast : (P.chain c).reverse.getLast? = some c := by
    rw [List.getLast?_reverse, chain, List.head?_cons]
  rwa [List.getLast?_eq_getElem?, List.length_reverse] at hlast

theorem mem_chain_iff {c p : C} :
    p ∈ P.chain c ↔ P.depth p ≤ P.depth c ∧ (P.chain c).reverse[P.depth p - 1]? = some p := by
  constructor
  · intro h
    have hpre : (P.chain p).reverse <+: (P.chain c).reverse := by
      rw [List.reverse_prefix]
      exact chain_suffix h
    obtain ⟨below, happ⟩ := hpre
    have hlt : P.depth p - 1 < (P.chain p).reverse.length := by
      rw [List.length_reverse]
      exact Nat.sub_lt (depth_pos p) Nat.one_pos
    refine ⟨(chain_suffix h).length_le, ?_⟩
    rw [← happ, List.getElem?_append_left hlt, reverse_chain_depth]
  · rintro ⟨-, h⟩
    exact List.mem_reverse.1 (List.mem_of_getElem? h)

end Parents

/-! ### The arrays -/

/-- The fields of an `Il2CppClass` that `SetupTypeHierarchyLocked` writes. -/
structure Display (C : Type) where
  typeHierarchyDepth : UInt8
  /-- The array, with `none` for a NULL entry; `none` is the pointer NULL. -/
  typeHierarchy : Option (List (Option C))

/-- The memory of the classes. -/
abbrev Displays (C : Type) := C → Display C

/-- No class has an array.  The depth is what the constructor of the class has left there. -/
def initial (typeHierarchyDepth : C → UInt8) : Displays C :=
  fun c => ⟨typeHierarchyDepth c, none⟩

/-- `array[i] = x`, a fault outside of the array. -/
def store {α : Type} (array : List α) (i : ℤ) (x : α) : Option (List α) :=
  if 0 ≤ i ∧ i < array.length then some (array.set i.toNat x) else none

/-- `array[i]`, a fault outside of the array. -/
def load {α : Type} (array : List α) (i : ℤ) : Option α :=
  if 0 ≤ i then array[i.toNat]? else none

/-- `memcpy` of `n` entries, a fault if one of the arrays is shorter. -/
def memcpy {α : Type} (dst src : List α) (n : ℕ) : Option (List α) :=
  if n ≤ dst.length ∧ n ≤ src.length then some (src.take n ++ dst.drop n) else none

/-- The display below `parent`: calloc, the class in the last entry, the parent's array in front. -/
def displayBelow (parent : Display C) (klass : C) : Option (Display C) := do
  let typeHierarchyDepth := parent.typeHierarchyDepth + 1
  let typeHierarchy := List.replicate typeHierarchyDepth.toNat none
  let typeHierarchy ← store typeHierarchy ((typeHierarchyDepth.toNat : ℤ) - 1) (some klass)
  let typeHierarchy ←
    memcpy typeHierarchy (← parent.typeHierarchy) parent.typeHierarchyDepth.toNat
  return ⟨typeHierarchyDepth, some typeHierarchy⟩

section

variable [DecidableEq C] (P : Parents C)

/-- `SetupTypeHierarchyLocked`, `none` after a fault. -/
def setupTypeHierarchyLocked (s : Displays C) (klass : C) : Option (Displays C) :=
  if (s klass).typeHierarchy.isSome then some s
  else
    match _h : P.parent klass with
    | none => some (Function.update s klass ⟨1, some [some klass]⟩)
    | some parent =>
      (if (s parent).typeHierarchy.isNone then setupTypeHierarchyLocked s parent
        else some s).bind fun s =>
      (displayBelow (s parent) klass).map (Function.update s klass)
termination_by P.height klass
decreasing_by exact P.height_lt _h

/-- `Class::SetupTypeHierarchy`. -/
def setupTypeHierarchy (s : Displays C) (klass : C) : Option (Displays C) :=
  if (s klass).typeHierarchy.isNone then setupTypeHierarchyLocked P s klass else some s

/-- A run of `Class::SetupTypeHierarchy` over classes. -/
def setupAll (s : Displays C) (classes : List C) : Option (Displays C) :=
  classes.foldlM (setupTypeHierarchy P) s

omit P in
/-- `ClassInlines::HasParentUnsafe`, `none` for a read outside of the array. -/
def hasParentUnsafe (s : Displays C) (klass parent : C) : Option Bool :=
  if (s klass).typeHierarchyDepth ≥ (s parent).typeHierarchyDepth then do
    let typeHierarchy ← (s klass).typeHierarchy
    let base ← load typeHierarchy (((s parent).typeHierarchyDepth.toNat : ℤ) - 1)
    return decide (base = some parent)
  else some false

/-- `Class::HasParent`. -/
def hasParent (s : Displays C) (klass parent : C) : Option Bool := do
  let s ← setupTypeHierarchy P s klass
  let s ← setupTypeHierarchy P s parent
  hasParentUnsafe s klass parent

end

/-! ### What is built -/

/-- The display of a class whose chain fits. -/
def Parents.display (P : Parents C) (c : C) : Display C :=
  ⟨UInt8.ofNat (P.depth c), some ((P.chain c).reverse.map some)⟩

/-- The arrays that exist are the chains, and the chains fit. -/
def Built (P : Parents C) (s : Displays C) : Prop :=
  ∀ c, (s c).typeHierarchy.isSome → P.depth c ≤ 255 ∧ s c = P.display c

variable {P : Parents C}

theorem built_initial (depth : C → UInt8) : Built P (initial depth) :=
  fun _ h => by simp [initial] at h

theorem toNat_depth {c : C} (h : P.depth c ≤ 255) :
    (P.display c).typeHierarchyDepth.toNat = P.depth c := by
  rw [Parents.display, UInt8.toNat_ofNat']
  exact Nat.mod_eq_of_lt (by omega)

theorem displayBelow_of_le {klass parent : C} (hp : P.parent klass = some parent)
    (h : P.depth klass ≤ 255) :
    displayBelow (P.display parent) klass = some (P.display klass) := by
  have hd : P.depth klass = P.depth parent + 1 := Parents.depth_of_parent hp
  have hparent : (P.display parent).typeHierarchyDepth.toNat = P.depth parent :=
    toNat_depth (by omega)
  have hnew : (P.display parent).typeHierarchyDepth + 1 = UInt8.ofNat (P.depth klass) := by
    rw [hd, UInt8.ofNat_add]
    rfl
  have hklass : (UInt8.ofNat (P.depth klass)).toNat = P.depth parent + 1 :=
    (toNat_depth h).trans hd
  have hlen : (P.chain parent).length = P.depth parent := rfl
  have hstore : store (List.replicate (P.depth parent + 1) none)
      (((P.depth parent + 1 : ℕ) : ℤ) - 1) (some klass) =
        some (List.replicate (P.depth parent) none ++ [some klass]) := by
    rw [store, if_pos (by rw [List.length_replicate]; omega)]
    have hindex : (((P.depth parent + 1 : ℕ) : ℤ) - 1).toNat = P.depth parent := by omega
    rw [List.replicate_succ', hindex]
    simp
  simp only [displayBelow, hnew, hklass, hstore, hparent, Option.bind_eq_bind, Option.bind_some]
  simp only [Parents.display, Option.bind_some, memcpy]
  rw [if_pos (by simp [hlen])]
  simp [Parents.chain_of_parent hp, hlen]

theorem displayBelow_of_eq {klass parent : C} (h : P.depth parent = 255) :
    displayBelow (P.display parent) klass = none := by
  have hwrap : (P.display parent).typeHierarchyDepth + 1 = 0 := by
    simp only [Parents.display, h]
    rfl
  simp [displayBelow, hwrap, store]

theorem display_of_root {c : C} (h : P.parent c = none) : P.display c = ⟨1, some [some c]⟩ := by
  rw [Parents.display, Parents.depth_of_root h, Parents.chain_of_root h]
  rfl

variable [DecidableEq C] {s : Displays C}

theorem Built.update (hs : Built P s) {c : C} (h : P.depth c ≤ 255) :
    Built P (Function.update s c (P.display c)) := by
  intro d hd
  by_cases hdc : d = c
  · rw [hdc, Function.update_self]
    exact ⟨h, rfl⟩
  · rw [Function.update_of_ne hdc] at hd ⊢
    exact hs d hd

/-- What setting up `klass` does to the arrays. -/
structure SetUp (P : Parents C) (klass : C) (s s' : Displays C) : Prop where
  built : Built P s'
  /-- The class has its array. -/
  self : (s' klass).typeHierarchy.isSome
  /-- No array is taken back. -/
  keeps : ∀ c, (s c).typeHierarchy.isSome → (s' c).typeHierarchy.isSome

theorem isSome_of_not_isNone {α : Type} {o : Option α} (h : ¬ o.isNone) : o.isSome := by
  rwa [Option.isNone_iff_eq_none, ← ne_eq, ← Option.isSome_iff_ne_none] at h

omit [DecidableEq C] in
theorem SetUp.refl (hs : Built P s) {klass : C} (h : (s klass).typeHierarchy.isSome) :
    SetUp P klass s s :=
  ⟨hs, h, fun _ hc => hc⟩

theorem SetUp.update {s₀ : Displays C} (hs : Built P s)
    (hkeeps : ∀ c, (s₀ c).typeHierarchy.isSome → (s c).typeHierarchy.isSome) {klass : C}
    (h : P.depth klass ≤ 255) :
    SetUp P klass s₀ (Function.update s klass (P.display klass)) where
  built := hs.update h
  self := by
    rw [Function.update_self]
    rfl
  keeps := by
    intro c hc
    by_cases hck : c = klass
    · rw [hck, Function.update_self]
      rfl
    · rw [Function.update_of_ne hck]
      exact hkeeps c hc

theorem setupTypeHierarchyLocked_of_le (hs : Built P s) {klass : C} (h : P.depth klass ≤ 255) :
    ∃ s', setupTypeHierarchyLocked P s klass = some s' ∧ SetUp P klass s s' := by
  induction klass using P.induction with
  | step klass ih =>
    rw [setupTypeHierarchyLocked]
    split
    case isTrue hset => exact ⟨s, rfl, .refl hs hset⟩
    case isFalse hset =>
      split
      case h_1 hp =>
        rw [← display_of_root hp]
        exact ⟨_, rfl, .update hs (fun _ hc => hc) h⟩
      case h_2 parent hp =>
        have hle : P.depth parent ≤ 255 := by
          rw [Parents.depth_of_parent hp] at h
          omega
        -- after the first step the parent has its array
        obtain ⟨s₁, hs₁, hup⟩ : ∃ s₁, (if (s parent).typeHierarchy.isNone then
            setupTypeHierarchyLocked P s parent else some s) = some s₁ ∧ SetUp P parent s s₁ := by
          split
          · exact ih parent hp hle
          · exact ⟨s, rfl, .refl hs (isSome_of_not_isNone ‹_›)⟩
        rw [hs₁, Option.bind_some, (hup.built parent hup.self).2, displayBelow_of_le hp h]
        exact ⟨_, rfl, .update hup.built hup.keeps h⟩

theorem setupTypeHierarchyLocked_of_lt (hs : Built P s) {klass : C} (h : 255 < P.depth klass) :
    setupTypeHierarchyLocked P s klass = none := by
  induction klass using P.induction with
  | step klass ih =>
    have hset : ¬ (s klass).typeHierarchy.isSome := fun hset => by
      have := (hs klass hset).1
      omega
    rw [setupTypeHierarchyLocked, if_neg hset]
    split
    case h_1 hp =>
      rw [Parents.depth_of_root hp] at h
      omega
    case h_2 parent hp =>
      rw [Parents.depth_of_parent hp] at h
      rcases Nat.lt_or_ge 255 (P.depth parent) with hlt | hle
      · have hnone : (s parent).typeHierarchy.isNone := by
          cases hq : (s parent).typeHierarchy with
          | none => rfl
          | some a =>
            have := (hs parent (by rw [hq]; rfl)).1
            omega
        rw [if_pos hnone, ih parent hp hlt]
        rfl
      · have heq : P.depth parent = 255 := by omega
        have hset' : ∀ s₁, SetUp P parent s s₁ → displayBelow (s₁ parent) klass = none := by
          intro s₁ hup
          rw [(hup.built parent hup.self).2, displayBelow_of_eq heq]
        split
        · obtain ⟨s₁, hs₁, hup⟩ := setupTypeHierarchyLocked_of_le hs hle
          simp [hs₁, hset' s₁ hup]
        · simp [hset' s (.refl hs (isSome_of_not_isNone ‹_›))]

theorem setupTypeHierarchy_of_le (hs : Built P s) {klass : C} (h : P.depth klass ≤ 255) :
    ∃ s', setupTypeHierarchy P s klass = some s' ∧ SetUp P klass s s' := by
  rw [setupTypeHierarchy]
  split
  · exact setupTypeHierarchyLocked_of_le hs h
  · exact ⟨s, rfl, .refl hs (isSome_of_not_isNone ‹_›)⟩

theorem setupTypeHierarchy_of_lt (hs : Built P s) {klass : C} (h : 255 < P.depth klass) :
    setupTypeHierarchy P s klass = none := by
  rw [setupTypeHierarchy]
  split
  · exact setupTypeHierarchyLocked_of_lt hs h
  · have := (hs klass (isSome_of_not_isNone ‹_›)).1
    omega

theorem hasParentUnsafe_of_built (hs : Built P s) {klass parent : C}
    (hk : (s klass).typeHierarchy.isSome) (hp : (s parent).typeHierarchy.isSome) :
    hasParentUnsafe s klass parent = some (decide (parent ∈ P.chain klass)) := by
  obtain ⟨hkle, hk⟩ := hs klass hk
  obtain ⟨hple, hp⟩ := hs parent hp
  have hpos : 0 < P.depth parent := Parents.depth_pos parent
  simp only [hasParentUnsafe, hk, hp, ge_iff_le, UInt8.le_iff_toNat_le, toNat_depth hkle,
    toNat_depth hple]
  split
  case isTrue hle =>
    have hindex : ((P.depth parent : ℤ) - 1).toNat = P.depth parent - 1 := by omega
    have hlt : P.depth parent - 1 < (P.chain klass).reverse.length := by
      rw [List.length_reverse, ← Parents.depth]
      omega
    have hload : load ((P.chain klass).reverse.map some) ((P.depth parent : ℤ) - 1) =
        some (some (P.chain klass).reverse[P.depth parent - 1]) := by
      rw [load, if_pos (by omega), hindex, List.getElem?_map, List.getElem?_eq_getElem hlt]
      rfl
    simp only [Parents.display, Option.bind_eq_bind, Option.bind_some, hload,
      Parents.mem_chain_iff, List.getElem?_eq_getElem hlt, hle, true_and]
    rfl
  case isFalse hle =>
    rw [decide_eq_false fun hmem => hle (Parents.mem_chain_iff.1 hmem).1]

theorem setupAll_spec (hs : Built P s) (classes : List C) :
    ((∀ c ∈ classes, P.depth c ≤ 255) ∧ ∃ s', setupAll P s classes = some s' ∧ Built P s') ∨
      ((∃ c ∈ classes, 255 < P.depth c) ∧ setupAll P s classes = none) := by
  induction classes generalizing s with
  | nil => exact .inl ⟨by simp, s, rfl, hs⟩
  | cons c classes ih =>
    rw [setupAll, List.foldlM_cons]
    rcases Nat.lt_or_ge 255 (P.depth c) with hlt | hle
    · rw [setupTypeHierarchy_of_lt hs hlt]
      exact .inr ⟨⟨c, List.mem_cons_self, hlt⟩, rfl⟩
    · obtain ⟨s₁, hs₁, hup⟩ := setupTypeHierarchy_of_le hs hle
      rw [hs₁]
      rcases ih hup.built with ⟨hall, hrun⟩ | ⟨⟨d, hd, hlt⟩, hrun⟩
      · exact .inl ⟨List.forall_mem_cons.2 ⟨hle, hall⟩, hrun⟩
      · exact .inr ⟨⟨d, List.mem_cons_of_mem _ hd, hlt⟩, hrun⟩

theorem hasParent_spec (hs : Built P s) (klass parent : C) :
    hasParent P s klass parent =
      if P.depth klass ≤ 255 ∧ P.depth parent ≤ 255 then some (decide (parent ∈ P.chain klass))
      else none := by
  rw [hasParent]
  rcases Nat.lt_or_ge 255 (P.depth klass) with hlt | hk
  · rw [setupTypeHierarchy_of_lt hs hlt, if_neg (by omega)]
    rfl
  obtain ⟨s₁, hs₁, hup₁⟩ := setupTypeHierarchy_of_le hs hk
  rw [hs₁]
  rcases Nat.lt_or_ge 255 (P.depth parent) with hlt | hp
  · rw [if_neg (by omega), Option.bind_eq_bind, Option.bind_some,
      setupTypeHierarchy_of_lt hup₁.built hlt]
    rfl
  obtain ⟨s₂, hs₂, hup₂⟩ := setupTypeHierarchy_of_le hup₁.built hp
  rw [if_pos ⟨hk, hp⟩, Option.bind_eq_bind, Option.bind_some, hs₂, Option.bind_some]
  exact hasParentUnsafe_of_built hup₂.built (hup₂.keeps klass hup₁.self) hup₂.self

/-- **The constant-time subclass test.**  After any run of set-ups, the test between two classes
says whether `parent` is in the chain of `klass` if and only if no chain involved has more than 255
classes. -/
theorem hasParent_eq_decide_mem_chain_iff (P : Parents C) (typeHierarchyDepth : C → UInt8)
    (classes : List C) (klass parent : C) :
    ((setupAll P (initial typeHierarchyDepth) classes).bind fun s => hasParent P s klass parent) =
        some (decide (parent ∈ P.chain klass)) ↔
      ∀ c ∈ klass :: parent :: classes, P.depth c ≤ 255 := by
  rcases setupAll_spec (built_initial typeHierarchyDepth) classes with
    ⟨hall, s, hrun, hs⟩ | ⟨⟨c, hc, hlt⟩, hrun⟩
  · rw [hrun, Option.bind_some, hasParent_spec hs]
    simp only [List.forall_mem_cons]
    constructor
    · intro h
      split at h
      case isTrue hfit => exact ⟨hfit.1, hfit.2, hall⟩
      case isFalse => cases h
    · intro h
      rw [if_pos ⟨h.1, h.2.1⟩]
  · rw [hrun]
    constructor
    · intro h
      cases h
    · intro h
      have := h c (List.mem_cons_of_mem _ (List.mem_cons_of_mem _ hc))
      omega

/-- Each class derives from the one before it. -/
def Parents.tower : Parents ℕ where
  parent c := match c with
    | 0 => none
    | c + 1 => some c
  height := id
  height_lt := by
    intro c p h
    match c, h with
    | c + 1, h =>
      cases h
      exact Nat.lt_succ_self _

theorem Parents.depth_tower (c : ℕ) : tower.depth c = c + 1 := by
  induction c with
  | zero => exact depth_of_root rfl
  | succ c ih => rw [depth_of_parent (p := c) rfl, ih]

/-- The test faults between the last class of a chain of 256 and the root above it. -/
theorem hasParent_tower_wraps :
    hasParent Parents.tower (initial fun _ => 0) 255 0 ≠
      some (decide (0 ∈ Parents.tower.chain 255)) := by
  rw [hasParent_spec (built_initial _), if_neg fun h => by
    have := Parents.depth_tower 255
    omega]
  exact nofun

end Il2Cpp.TypeHierarchy
