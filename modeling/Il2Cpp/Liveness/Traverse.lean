import Il2Cpp.Data.Marking
import Il2Cpp.Liveness.State

/-!
# Processing the work list

`TraverseObjects` marks the closure of the work list, in whatever order it meets the objects, and
ends: every object that it takes from the work list was marked before.

* `Out`, `Inner` : the references that get marked, and the objects that go on the work list.
* `Closed` : the objects that are marked in the end.
* `Progress` : what a part of the algorithm does, when some references have been added.
* `traverseLoop_spec` : the whole.
-/

namespace Il2Cpp

namespace Liveness

namespace LivenessState

open Marking

variable {K Addr : Type} [DecidableEq K] [DecidableEq Addr] [Fintype Addr] (T : TypeSystem K)
  (H : Heap K Addr) (filter : Option K)

/-- The object is marked when it is met: it has references, or matches the filter. -/
def Wanted (object : Addr) : Prop :=
  T.hasReferences (H.classOf object) = true ∨ shouldProcessValue T H filter object = true

/-- The object goes on the work list. -/
def Inner (object : Addr) : Prop := T.hasReferences (H.classOf object) = true

/-- A reference that is followed. -/
def Out (object val : Addr) : Prop :=
  some val ∈ (references T H object).flatten ∧ Wanted T H filter val

/-- The objects that are marked when the references `Q` have been added and the work list has been
processed. -/
def Closed (s : LivenessState Addr) (Q : Set Addr) : Addr → Prop :=
  Closure (Out T H filter) (Inner T H) {x | s.marked x = true} {x | x ∈ s.processArray} Q

/-- The references that are added from a list. -/
def Offered (objects : List (Option Addr)) : Set Addr :=
  {x | some x ∈ objects ∧ Wanted T H filter x}

/-- The objects not marked and those on the work list: what is left to do. -/
def measure (s : LivenessState Addr) : ℕ :=
  (Finset.univ.filter fun x => s.marked x = false).card + s.processArray.length

/-- The list of all objects is right. -/
structure Book (s : LivenessState Addr) : Prop where
  nodup : s.allObjects.Nodup
  mem : ∀ x, x ∈ s.allObjects ↔ s.marked x = true

/-- What a part of the algorithm does: afterwards the references `A` have been added. -/
structure Progress (s s' : LivenessState Addr) (A : Set Addr) : Prop where
  closed : ∀ Q x, Closed T H filter s' Q x ↔ Closed T H filter s (A ∪ Q) x
  measure_le : measure s' ≤ measure s
  book : Book s → Book s'
  depth : s'.traverseDepth = s.traverseDepth
  iterator : s'.iterator = s.iterator
  allObjects : s.allObjects <+: s'.allObjects

variable {T H filter} {s s' s'' : LivenessState Addr} {A B : Set Addr}

namespace Progress

omit [DecidableEq Addr]

theorem refl (s : LivenessState Addr) : Progress T H filter s s ∅ where
  closed Q x := by rw [Set.empty_union]
  measure_le := Nat.le_refl _
  book h := h
  depth := rfl
  iterator := rfl
  allObjects := List.prefix_refl _

theorem trans (h : Progress T H filter s s' A) (h' : Progress T H filter s' s'' B) :
    Progress T H filter s s'' (A ∪ B) where
  closed Q x := by rw [h'.closed, h.closed, Set.union_assoc]
  measure_le := Nat.le_trans h'.measure_le h.measure_le
  book hb := h'.book (h.book hb)
  depth := h'.depth.trans h.depth
  iterator := h'.iterator.trans h.iterator
  allObjects := h.allObjects.trans h'.allObjects

end Progress

/-! ### Adding references -/

omit [Fintype Addr] in
@[simp] theorem marked_mark (s : LivenessState Addr) (object x : Addr) :
    (s.mark object).marked x = true ↔ x = object ∨ s.marked x = true := by
  rw [mark]
  by_cases hx : x = object
  · simp [hx]
  · simp [hx]

omit [Fintype Addr] in
theorem setOf_marked_mark (s : LivenessState Addr) (object : Addr) :
    {x | (s.mark object).marked x = true} = insert object {x | s.marked x = true} := by
  ext x
  exact s.marked_mark object x

omit [DecidableEq Addr] [Fintype Addr] in
theorem setOf_mem_push (s : LivenessState Addr) (object : Addr) :
    {x | x ∈ (s.push object).processArray} = insert object {x | x ∈ s.processArray} := by
  ext x
  exact List.mem_cons

theorem card_mark {object : Addr} (h : s.marked object = false) :
    (Finset.univ.filter fun x => (s.mark object).marked x = false).card + 1 =
      (Finset.univ.filter fun x => s.marked x = false).card := by
  have herase : (Finset.univ.filter fun x => (s.mark object).marked x = false) =
      (Finset.univ.filter fun x => s.marked x = false).erase object := by
    ext x
    rw [Finset.mem_erase, Finset.mem_filter, Finset.mem_filter, ← Bool.not_eq_true, marked_mark]
    simp [not_or]
  rw [herase]
  exact Finset.card_erase_add_one (by simp [h])

omit [Fintype Addr] in
theorem Book.mark {object : Addr} (h : Book s) (ho : s.marked object = false) :
    Book (s.mark object) where
  nodup := by
    have hmem : object ∉ s.allObjects := fun hmem => by
      rw [(h.mem object).1 hmem] at ho
      cases ho
    exact (List.perm_append_singleton object s.allObjects).nodup_iff.2
      (List.nodup_cons.2 ⟨hmem, h.nodup⟩)
  mem x := by
    rw [marked_mark, ← h.mem x, or_comm]
    simp [LivenessState.mark]

theorem progress_mark {object : Addr} (ho : s.marked object = false)
    (hi : ¬ Inner T H object) : Progress T H filter s (s.mark object) {object} where
  closed Q x := by
    rw [Closed, setOf_marked_mark, Set.singleton_union]
    exact (Closure.leaf hi).symm
  measure_le := by
    have hcard := card_mark ho
    rw [measure, measure, ← hcard]
    exact Nat.add_le_add_right (Nat.le_succ _) _
  book h := h.mark ho
  depth := rfl
  iterator := rfl
  allObjects := List.prefix_append _ _

theorem progress_mark_push {object : Addr} (ho : s.marked object = false)
    (hi : Inner T H object) : Progress T H filter s ((s.mark object).push object) {object} where
  closed Q x := by
    have hM : {x | ((s.mark object).push object).marked x = true} =
        insert object {x | s.marked x = true} := s.setOf_marked_mark object
    rw [Closed, hM, setOf_mem_push, Set.singleton_union]
    exact (Closure.push (by simp [ho]) hi).symm
  measure_le := by
    have hcard := card_mark ho
    rw [measure, measure, ← hcard]
    exact Nat.le_of_eq (Nat.add_right_comm _ 1 _).symm
  book h := ⟨(h.mark ho).nodup, (h.mark ho).mem⟩
  depth := rfl
  iterator := rfl
  allObjects := List.prefix_append _ _

omit [DecidableEq Addr] in
theorem progress_known {object : Addr} (ho : s.marked object = true) :
    Progress T H filter s s {object} where
  closed Q x := by
    rw [Closed, Set.singleton_union]
    exact (Closure.known (M := {x | s.marked x = true}) ho).symm
  measure_le := Nat.le_refl _
  book h := h
  depth := rfl
  iterator := rfl
  allObjects := List.prefix_refl _

/-- **`AddProcessObject`.** -/
theorem progress_addProcessObject (s : LivenessState Addr) (object : Option Addr) :
    Progress T H filter s (s.addProcessObject T H filter object).2
      (Offered T H filter [object]) := by
  cases object with
  | none =>
    rw [show Offered T H filter [none] = ∅ by ext; simp [Offered]]
    exact .refl s
  | some object =>
    by_cases hw : Wanted T H filter object
    · have hoff : Offered T H filter [some object] = {object} := by
        ext x
        simp only [Offered, List.mem_singleton, Option.some.injEq, Set.mem_ofPred_eq,
          Set.mem_singleton_iff, and_iff_left_iff_imp]
        rintro rfl
        exact hw
      rw [hoff, addProcessObject]
      split_ifs with hm hr hf
      · exact progress_known hm
      · exact progress_mark_push (by simpa using hm) hr
      · exact progress_mark (by simpa using hm) hr
      · exact absurd hw (by simp [Wanted, hr, hf])
    · have hoff : Offered T H filter [some object] = ∅ := by
        ext x
        simp only [Offered, List.mem_singleton, Option.some.injEq, Set.mem_ofPred_eq,
          Set.mem_empty_iff_false, iff_false, not_and]
        rintro rfl
        exact hw
      rw [Wanted, not_or] at hw
      rw [hoff, addProcessObject, if_neg hw.1, if_neg hw.2, ite_self]
      exact .refl s

omit [DecidableEq Addr] [Fintype Addr] in
theorem offered_append (l l' : List (Option Addr)) :
    Offered T H filter (l ++ l') = Offered T H filter l ∪ Offered T H filter l' := by
  ext x
  simp only [Offered, List.mem_append, Set.mem_ofPred_eq, Set.mem_union, or_and_right]

variable (T H filter) in
theorem progress_addProcessObjects (objects : List (Option Addr)) (s : LivenessState Addr) :
    Progress T H filter s (s.addProcessObjects T H filter objects).2
      (Offered T H filter objects) := by
  induction objects generalizing s with
  | nil =>
    rw [show Offered T H filter [] = ∅ by ext; simp [Offered]]
    exact .refl s
  | cons object objects ih =>
    rw [show object :: objects = [object] ++ objects from rfl, offered_append]
    exact (progress_addProcessObject s object).trans (ih _)

/-! ### Processing the work list -/

variable (filter) in
theorem progress_traverseElements {n : ℕ}
    {traverse : LivenessState Addr → Option (LivenessState Addr)}
    (htr : ∀ s, measure s < n → ∃ s', traverse s = some s' ∧ Progress T H filter s s' ∅)
    (elements : List (List (Option Addr))) (itemsProcessed : ℕ) (s : LivenessState Addr)
    (hs : measure s < n) :
    ∃ s', traverseElements T H filter traverse elements itemsProcessed s = some s' ∧
      Progress T H filter s s' (Offered T H filter elements.flatten) := by
  induction elements generalizing itemsProcessed s with
  | nil =>
    rw [show Offered T H filter ([] : List (List (Option Addr))).flatten = ∅ by ext; simp [Offered]]
    exact ⟨s, rfl, .refl s⟩
  | cons element elements ih =>
    have hadd := progress_addProcessObjects T H filter element s
    have hlt := Nat.lt_of_le_of_lt hadd.measure_le hs
    rw [List.flatten_cons, offered_append]
    simp only [traverseElements]
    generalize (if (addProcessObjects T H filter s element).1 = true then itemsProcessed + 1
      else itemsProcessed) = items
    split
    -- the work list is processed
    · obtain ⟨s₁, hs₁, hp₁⟩ := htr _ hlt
      have hp := hadd.trans hp₁
      rw [Set.union_empty] at hp
      obtain ⟨s₂, hs₂, hp₂⟩ := ih _ s₁ (Nat.lt_of_le_of_lt hp.measure_le hs)
      exact ⟨s₂, by rw [hs₁, Option.bind_some, hs₂], hp.trans hp₂⟩
    · obtain ⟨s₂, hs₂, hp₂⟩ := ih _ _ hlt
      exact ⟨s₂, by rw [Option.bind_some, hs₂], hadd.trans hp₂⟩

omit [DecidableEq Addr] in
theorem nested_spec {loop : LivenessState Addr → Option (LivenessState Addr)} {n : ℕ}
    (hloop : ∀ s, measure s < n → ∃ s', loop s = some s' ∧ Progress T H filter s s' ∅ ∧
      s'.processArray = []) (s : LivenessState Addr) (hs : measure s < n) :
    ∃ s', nested loop s = some s' ∧ Progress T H filter s s' ∅ ∧ s'.processArray = [] := by
  obtain ⟨s', hs', hp, hnil⟩ := hloop { s with traverseDepth := s.traverseDepth + 1 } hs
  refine ⟨{ s' with traverseDepth := s'.traverseDepth - 1 }, by rw [nested, hs', Option.map_some],
    ⟨hp.closed, hp.measure_le, fun h => ?_, ?_, hp.iterator, hp.allObjects⟩, hnil⟩
  · obtain ⟨hnodup, hmem⟩ := hp.book ⟨h.nodup, h.mem⟩
    exact ⟨hnodup, hmem⟩
  · have hd := hp.depth
    simp only at hd ⊢
    omega

omit [DecidableEq Addr] in
theorem Progress.pop {object : Addr} {rest : List Addr} (hs : s.processArray = object :: rest)
    (h : Progress T H filter { s with processArray := rest } s'
      (Offered T H filter (references T H object).flatten)) : Progress T H filter s s' ∅ where
  closed Q x := by
    have hP : {x | x ∈ s.processArray} = insert object {x | x ∈ rest} := by
      ext x
      rw [hs]
      exact List.mem_cons
    rw [h.closed, Set.empty_union, Closed, Closed, hP]
    exact Closure.pop.symm
  measure_le := by
    have hle := h.measure_le
    simp only [measure] at hle ⊢
    rw [hs, List.length_cons]
    omega
  book hb := h.book ⟨hb.nodup, hb.mem⟩
  depth := h.depth
  iterator := h.iterator
  allObjects := h.allObjects

/-- **The loop of `TraverseObjects`** empties the work list. -/
theorem traverseLoop_spec {n : ℕ} (s : LivenessState Addr) (hs : measure s < n) :
    ∃ s', traverseLoop T H filter n s = some s' ∧ Progress T H filter s s' ∅ ∧
      s'.processArray = [] := by
  induction n generalizing s with
  | zero => omega
  | succ n ih =>
    rw [traverseLoop]
    split
    · rename_i hnil
      exact ⟨s, rfl, .refl s, hnil⟩
    · rename_i object rest hcons
      have hlt : measure { s with processArray := rest } < n := by
        simp only [measure, hcons, List.length_cons] at hs ⊢
        omega
      obtain ⟨s₁, hs₁, hp₁⟩ := progress_traverseElements filter
        (fun s hs => by
          obtain ⟨s', hs', hp, -⟩ := nested_spec ih s hs
          exact ⟨s', hs', hp⟩)
        (references T H object) 0 _ hlt
      obtain ⟨s₂, hs₂, hp₂, hnil⟩ := ih s₁ (Nat.lt_of_le_of_lt hp₁.measure_le hlt)
      have hp := (hp₁.pop hcons).trans hp₂
      rw [Set.union_empty] at hp
      exact ⟨s₂, by rw [hs₁, Option.bind_some, hs₂], hp, hnil⟩

variable (T H filter) in
theorem traverseObjects_spec {n : ℕ} (s : LivenessState Addr) (hs : measure s < n) :
    ∃ s', traverseObjects T H filter n s = some s' ∧ Progress T H filter s s' ∅ ∧
      s'.processArray = [] :=
  nested_spec traverseLoop_spec s hs

end LivenessState

end Liveness

end Il2Cpp
