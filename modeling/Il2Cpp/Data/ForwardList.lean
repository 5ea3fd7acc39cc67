import Mathlib

/-!
# Singly linked lists

Nodes that are linked by one pointer, with a pointer to the first one.

* `ForwardList.Linked` : the nodes from a pointer on, up to NULL.
* `ForwardList.Represents` : the nodes of the whole list.
* `Represents.unlink` : a node is taken out while the list is walked, with the last node that was
  kept at hand.  The node that is taken out still points to the next one.
-/

namespace Il2Cpp

/-- The pointers of a singly linked list with the nodes `N`; NULL is `none`. -/
structure ForwardList (N : Type*) where
  head : Option N
  next : N → Option N

namespace ForwardList

variable {N : Type*}

/-- From `start` on the pointers go through the nodes of the list, and end. -/
def Linked (next : N → Option N) : Option N → List N → Prop
  | start, [] => start = none
  | start, p :: l => start = some p ∧ Linked next (next p) l

def Represents (s : ForwardList N) (l : List N) : Prop := Linked s.next s.head l

variable {next next' : N → Option N} {start : Option N} {a b l l' : List N} {p q : N}

theorem Linked.start_eq (h : Linked next start l) : start = l.head? := by
  cases l with
  | nil => exact h
  | cons p l => exact h.1

/-- The nodes are determined by the pointers. -/
theorem Linked.unique (h : Linked next start l) (h' : Linked next start l') : l = l' := by
  induction l generalizing start l' with
  | nil =>
    cases l' with
    | nil => rfl
    | cons q l' => exact absurd (h'.1.symm.trans h) (Option.some_ne_none q)
  | cons p l ih =>
    obtain ⟨rfl, hl⟩ := h
    cases l' with
    | nil => cases h'
    | cons q l' =>
      obtain ⟨hpq, hl'⟩ := h'
      obtain rfl := Option.some.inj hpq
      rw [ih hl hl']

theorem Linked.suffix (h : Linked next start (a ++ p :: b)) : Linked next (some p) (p :: b) := by
  induction a generalizing start with
  | nil =>
    obtain ⟨-, hb⟩ := h
    exact ⟨rfl, hb⟩
  | cons q a ih => exact ih h.2

theorem Linked.next_eq (h : Linked next start (a ++ p :: b)) : next p = b.head? :=
  h.suffix.2.start_eq

/-- A node that came twice would be followed by the same nodes both times. -/
theorem Linked.nodup (h : Linked next start l) : l.Nodup := by
  induction l generalizing start with
  | nil => exact List.nodup_nil
  | cons p l ih =>
    obtain ⟨rfl, hl⟩ := h
    refine List.nodup_cons.2 ⟨fun hmem => ?_, ih hl⟩
    obtain ⟨a, b, rfl⟩ := List.append_of_mem hmem
    have hwhole : Linked next (some p) (p :: (a ++ p :: b)) := ⟨rfl, hl⟩
    have hlength := congrArg List.length (hwhole.unique hl.suffix)
    simp at hlength
    omega

theorem Linked.congr (hnext : ∀ p ∈ l, next p = next' p) (h : Linked next start l) :
    Linked next' start l := by
  induction l generalizing start with
  | nil => exact h
  | cons p l ih =>
    obtain ⟨hp, hl⟩ := List.forall_mem_cons.1 hnext
    exact ⟨h.1, hp ▸ ih hl h.2⟩

variable [DecidableEq N]

/-- The pointer of the node in front is moved behind the node `q`. -/
theorem Linked.skip (h : Linked next start (a ++ p :: q :: b)) :
    Linked (Function.update next p (next q)) start (a ++ p :: b) := by
  have hnodup := h.nodup
  induction a generalizing start with
  | nil =>
    obtain ⟨rfl, hpq⟩ := h
    obtain ⟨hp, -⟩ := List.nodup_cons.1 hnodup
    refine ⟨rfl, ?_⟩
    rw [Function.update_self]
    refine hpq.2.congr fun r hr => ?_
    have hrp : r ≠ p := by
      rintro rfl
      exact hp (List.mem_cons_of_mem q hr)
    rw [Function.update_of_ne hrp]
  | cons r a ih =>
    obtain ⟨hr, hnodup⟩ := List.nodup_cons.1 hnodup
    have hrp : r ≠ p := by
      rintro rfl
      simp at hr
    refine ⟨h.1, ?_⟩
    rw [Function.update_of_ne hrp]
    exact ih h.2 hnodup

/-- The node `q` is taken out; `prev` is the one in front of it, if there is one. -/
def unlink (s : ForwardList N) (prev : Option N) (q : N) : ForwardList N :=
  match prev with
  | none => { s with head := s.next q }
  | some p => { s with next := Function.update s.next p (s.next q) }

/-- **Taking a node out.** -/
theorem Represents.unlink {s : ForwardList N} (h : s.Represents (a ++ q :: b)) :
    (s.unlink a.getLast? q).Represents (a ++ b) := by
  rcases List.eq_nil_or_concat a with rfl | ⟨a, p, rfl⟩
  · exact h.2
  · have hlinked : Linked s.next s.head (a ++ p :: q :: b) := by
      rw [Represents] at h
      simpa using h
    have hskip := hlinked.skip
    simpa [Represents, ForwardList.unlink] using hskip

/-- The walk goes on behind the node. -/
theorem Represents.unlink_next {s : ForwardList N} (h : s.Represents (a ++ q :: b)) :
    (s.unlink a.getLast? q).next q = b.head? := by
  have hnext : s.next q = b.head? := Linked.next_eq h
  rcases List.eq_nil_or_concat a with rfl | ⟨a, p, rfl⟩
  · exact hnext
  · have hqp : q ≠ p := by
      rintro rfl
      have hnodup := Linked.nodup h
      simp [List.nodup_append] at hnodup
    simpa [ForwardList.unlink, hqp] using hnext

end ForwardList

end Il2Cpp
