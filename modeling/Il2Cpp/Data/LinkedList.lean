import Mathlib

/-!
# Doubly linked lists

Nodes that are linked by two pointers, with pointers to the first and to the last node.

* `LinkedList.Represents` : the links are those of a list of nodes.
* `Represents.pushBack`, `Represents.remove` : a node is added at the end, or taken out.
* `Represents.walk` : a search that follows the pointers.
-/

namespace Il2Cpp

/-- The pointers of a doubly linked list with the nodes `P`; NULL is `none`. -/
structure LinkedList (P : Type*) where
  head : Option P
  tail : Option P
  prev : P → Option P
  next : P → Option P

namespace LinkedList

variable {P : Type*} [DecidableEq P]

/-- No nodes. -/
def empty : LinkedList P := ⟨none, none, fun _ => none, fun _ => none⟩

/-- A new node, whose links are NULL, is added behind the last one. -/
def pushBack (s : LinkedList P) (p : P) : LinkedList P :=
  let prev := Function.update s.prev p none
  let next := Function.update s.next p none
  match s.tail with
  | none => ⟨some p, some p, prev, next⟩
  | some q => ⟨s.head, some p, Function.update prev p (some q), Function.update next q (some p)⟩

/-- A node is taken out. -/
def remove (s : LinkedList P) (p : P) : LinkedList P where
  head := if s.head = some p then s.next p else s.head
  tail := if s.tail = some p then s.prev p else s.tail
  prev := match s.next p with
    | some q => Function.update s.prev q (s.prev p)
    | none => s.prev
  next := match s.prev p with
    | some q => Function.update s.next q (s.next p)
    | none => s.next

omit [DecidableEq P] in
/-- The first node from `p` on that satisfies `f`; `none` if it is not found in `n` steps. -/
def walk (s : LinkedList P) (f : P → Bool) : ℕ → Option P → Option (Option P)
  | 0, _ => none
  | _ + 1, none => some none
  | n + 1, some p => if f p then some (some p) else s.walk f n (s.next p)

omit [DecidableEq P] in
/-- The pointers link the nodes of the list `l`. -/
structure Represents (s : LinkedList P) (l : List P) : Prop where
  nodup : l.Nodup
  head : s.head = l.head?
  tail : s.tail = l.getLast?
  prev : ∀ a p b, l = a ++ p :: b → s.prev p = a.getLast?
  next : ∀ a p b, l = a ++ p :: b → s.next p = b.head?

omit [DecidableEq P] in
theorem represents_empty : (empty : LinkedList P).Represents [] where
  nodup := List.nodup_nil
  head := rfl
  tail := rfl
  prev a p b h := by simp at h
  next a p b h := by simp at h

namespace Represents

variable {s : LinkedList P} {l a b : List P} {p : P}

/-- **Adding a node.** -/
theorem pushBack (h : s.Represents l) (hp : p ∉ l) : (s.pushBack p).Represents (l ++ [p]) := by
  have hnodup : (l ++ [p]).Nodup :=
    (List.perm_append_singleton p l).nodup_iff.2 (List.nodup_cons.2 ⟨hp, h.nodup⟩)
  rcases List.eq_nil_or_concat l with rfl | ⟨l, q, rfl⟩
  · have htail : s.tail = none := h.tail
    have hnil {a b : List P} {q : P} (hab : [] ++ [p] = a ++ q :: b) : a = [] ∧ q = p ∧ b = [] := by
      cases a with
      | nil => simpa [eq_comm] using hab
      | cons c a => simp at hab
    refine ⟨hnodup, by simp [LinkedList.pushBack, htail], by simp [LinkedList.pushBack, htail],
      fun a q b hab => ?_, fun a q b hab => ?_⟩
    · obtain ⟨rfl, rfl, rfl⟩ := hnil hab
      simp [LinkedList.pushBack, htail]
    · obtain ⟨rfl, rfl, rfl⟩ := hnil hab
      simp [LinkedList.pushBack, htail]
  · have htail : s.tail = some q := by rw [h.tail]; simp
    have hpq : p ≠ q := by
      rintro rfl
      simp at hp
    -- a node is the new one, or one of the old ones
    have hcases {a b : List P} {r : P} (hab : l.concat q ++ [p] = a ++ r :: b) :
        (r = p ∧ a = l.concat q ∧ b = []) ∨ ∃ c, b = c.concat p ∧ l.concat q = a ++ r :: c := by
      rcases List.eq_nil_or_concat b with rfl | ⟨c, t, rfl⟩
      · obtain ⟨ha, hr⟩ := List.append_inj' hab rfl
        exact .inl ⟨by simpa [eq_comm] using hr, ha.symm, rfl⟩
      · have hab' : l.concat q ++ [p] = (a ++ r :: c) ++ [t] := by simpa using hab
        obtain ⟨ha, hr⟩ := List.append_inj' hab' rfl
        obtain rfl : p = t := by simpa using hr
        exact .inr ⟨c, rfl, ha⟩
    refine ⟨hnodup, ?_, by simp [LinkedList.pushBack, htail], fun a r b hab => ?_,
      fun a r b hab => ?_⟩
    · simp only [LinkedList.pushBack, htail]
      rw [h.head]
      cases l <;> simp
    · rcases hcases hab with ⟨rfl, rfl, rfl⟩ | ⟨c, rfl, hl⟩
      · simp [LinkedList.pushBack, htail]
      · have hrp : r ≠ p := by
          rintro rfl
          exact hp (by rw [hl]; simp)
        simpa [LinkedList.pushBack, htail, hrp] using h.prev a r c hl
    · rcases hcases hab with ⟨rfl, rfl, rfl⟩ | ⟨c, rfl, hl⟩
      · simp [LinkedList.pushBack, htail, hpq]
      · have hrp : r ≠ p := by
          rintro rfl
          exact hp (by rw [hl]; simp)
        have hnext := h.next a r c hl
        by_cases hrq : r = q
        · subst hrq
          -- the last of the old nodes
          have hc : c = [] := by
            have hnodup := h.nodup
            rcases List.eq_nil_or_concat c with rfl | ⟨c, t, rfl⟩
            · rfl
            · have hl' : l ++ [r] = (a ++ r :: c) ++ [t] := by simpa using hl
              obtain ⟨rfl, ht⟩ := List.append_inj' hl' rfl
              obtain rfl : r = t := by simpa using ht
              simp [List.nodup_append] at hnodup
          subst hc
          simp [LinkedList.pushBack, htail]
        · cases c with
          | nil =>
            obtain ⟨-, hr⟩ := List.append_inj' (l.concat_eq_append ▸ hl : l ++ [q] = a ++ [r]) rfl
            exact absurd (by simpa [eq_comm] using hr) hrq
          | cons t c => simpa [LinkedList.pushBack, htail, hrp, hrq] using hnext

/-- **Taking a node out.** -/
theorem remove (h : s.Represents (a ++ p :: b)) : (s.remove p).Represents (a ++ b) := by
  have hprev := h.prev a p b rfl
  have hnext := h.next a p b rfl
  have hnodup := h.nodup
  simp only [List.nodup_append, List.nodup_cons] at hnodup
  obtain ⟨ha, ⟨hpb, hb⟩, hab⟩ := hnodup
  have hdisjoint {q r : P} (hq : q ∈ a) (hr : r ∈ b) : q ≠ r :=
    hab q hq r (List.mem_cons_of_mem p hr)
  have hpa : p ∉ a := fun hmem => hab p hmem p List.mem_cons_self rfl
  refine ⟨?_, ?_, ?_, fun a' q b' heq => ?_, fun a' q b' heq => ?_⟩
  · exact h.nodup.sublist (List.Sublist.append_left (List.sublist_cons_self p b) a)
  · cases a with
    | nil => simp [LinkedList.remove, h.head, hnext]
    | cons t a =>
      have htp : t ≠ p := by
        rintro rfl
        exact hpa List.mem_cons_self
      simp [LinkedList.remove, h.head, htp]
  · rcases List.eq_nil_or_concat b with rfl | ⟨b, t, rfl⟩
    · simp [LinkedList.remove, h.tail, hprev]
    · have htp : t ≠ p := by
        rintro rfl
        exact hpb (by simp)
      have hlast : (a ++ p :: b.concat t).getLast? = some t := by
        rw [List.concat_eq_append, show a ++ p :: (b ++ [t]) = (a ++ p :: b) ++ [t] by simp,
          List.getLast?_concat]
      simp [LinkedList.remove, h.tail.trans hlast, htp]
  · simp only [LinkedList.remove, hnext, hprev]
    rcases List.append_eq_append_iff.1 heq with ⟨e, rfl, rfl⟩ | ⟨e, rfl, he⟩
    -- the node was behind the one that is taken out
    · have hold := h.prev (a ++ p :: e) q b' (by simp)
      cases e with
      | nil => simp
      | cons t e =>
        have hne : q ≠ t := by
          rintro rfl
          simp at hb
        simpa [hne, List.getLast?_append, List.getLast?_cons] using hold
    · cases e with
      | nil =>
        obtain rfl : q :: b' = b := he
        simp
      | cons t e =>
        obtain ⟨rfl, rfl⟩ := List.cons_eq_cons.1 he
        have hold := h.prev a' q (e ++ p :: b) (by simp)
        cases b with
        | nil => exact hold
        | cons t b =>
          have hne : q ≠ t := hdisjoint (by simp) List.mem_cons_self
          simpa [hne] using hold
  · simp only [LinkedList.remove, hnext, hprev]
    rcases List.append_eq_append_iff.1 heq with ⟨e, rfl, rfl⟩ | ⟨e, rfl, he⟩
    · have hold := h.next (a ++ p :: e) q b' (by simp)
      cases ha' : a.getLast? with
      | none => exact hold
      | some t =>
        have hne : q ≠ t := (hdisjoint (List.mem_of_getLast? ha') (by simp)).symm
        simpa [hne] using hold
    · cases e with
      | nil =>
        obtain rfl : q :: b' = b := he
        have hold := h.next (a' ++ [p]) q b' (by simp)
        cases ha' : (a' ++ []).getLast? with
        | none => exact hold
        | some t =>
          have hne : q ≠ t := (hdisjoint (List.mem_of_getLast? ha') (by simp)).symm
          simpa [hne] using hold
      | cons t e =>
        obtain ⟨rfl, rfl⟩ := List.cons_eq_cons.1 he
        have hold := h.next a' q (e ++ p :: b) (by simp)
        rcases List.eq_nil_or_concat e with rfl | ⟨e, t, rfl⟩
        · simp
        · have hne : q ≠ t := by
            rintro rfl
            simp [List.nodup_append] at ha
          have hlast : (a' ++ q :: e.concat t).getLast? = some t := by
            rw [List.concat_eq_append, show a' ++ q :: (e ++ [t]) = (a' ++ q :: e) ++ [t] by simp,
              List.getLast?_concat]
          rw [hlast]
          cases e <;> simpa [hne] using hold

omit [DecidableEq P] in
/-- **Searching** finds the first node of the list that satisfies `f`. -/
theorem walk (h : s.Represents l) (f : P → Bool) {n : ℕ} (hn : l.length < n) :
    s.walk f n s.head = some (l.find? f) := by
  have hwalk (b : List P) : ∀ a n, l = a ++ b → b.length < n →
      s.walk f n b.head? = some (b.find? f) := by
    induction b with
    | nil =>
      rintro a (_ | n) - hn
      · omega
      · rfl
    | cons q b ih =>
      rintro a (_ | n) hl hn
      · omega
      · rw [List.head?_cons, LinkedList.walk, List.find?_cons, h.next a q b hl]
        cases f q with
        | true => rfl
        | false => exact ih (a ++ [q]) n (by simpa using hl) (by simpa using hn)
  rw [h.head]
  exact hwalk l [] n rfl hn

end Represents

end LinkedList

end Il2Cpp
