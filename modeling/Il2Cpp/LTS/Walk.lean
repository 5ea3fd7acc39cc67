import Mathlib

/-!
# Walks in a graph some of whose edges grow

A graph is a relation `E u grows v` between its vertices.

* `Walk E u n v` : a walk from `u` to `v` with `n` growing edges.
* `Walk.count_le` : where no cycle grows, a walk has at most as many growing edges as there are
  vertices.
-/

namespace Il2Cpp

variable {V : Type*} {E : V → Bool → V → Prop} {S : Set V} {u v w : V} {m n : ℕ}

/-- A walk from `u` to `v`, `n` of whose edges grow. -/
inductive Walk (E : V → Bool → V → Prop) : V → ℕ → V → Prop
  | nil (v : V) : Walk E v 0 v
  | cons {u v w : V} {grows : Bool} {n : ℕ} :
      E u grows v → Walk E v n w → Walk E u (grows.toNat + n) w

namespace Walk

theorem single {grows : Bool} (h : E u grows v) : Walk E u grows.toNat v := .cons h (.nil v)

theorem trans (h : Walk E u m v) (h' : Walk E v n w) : Walk E u (m + n) w := by
  induction h with
  | nil => rwa [Nat.zero_add]
  | cons he _ ih =>
    rw [Nat.add_assoc]
    exact .cons he (ih h')

/-- The vertices from which a walk grows are different when no cycle grows. -/
theorem exists_nodup (hclosed : ∀ u ∈ S, ∀ grows v, E u grows v → v ∈ S)
    (hcycle : ∀ v ∈ S, ∀ n, Walk E v n v → n = 0) (hu : u ∈ S) (h : Walk E u n v) :
    ∃ l : List V, l.Nodup ∧ l.length = n ∧ ∀ w ∈ l, w ∈ S ∧ ∃ m, Walk E u m w := by
  induction h with
  | nil => exact ⟨[], .nil, rfl, nofun⟩
  | @cons u v w grows n he _ ih =>
    obtain ⟨l, hnodup, hlength, hl⟩ := ih (hclosed u hu grows v he)
    have hreach : ∀ x ∈ l, x ∈ S ∧ ∃ m, Walk E u m x := by
      intro x hx
      obtain ⟨hxS, m, hm⟩ := hl x hx
      exact ⟨hxS, _, .cons he hm⟩
    cases grows with
    | false => exact ⟨l, hnodup, by simp [hlength], hreach⟩
    | true =>
      refine ⟨u :: l, List.nodup_cons.2 ⟨fun hul => ?_, hnodup⟩, ?_, ?_⟩
      · -- a walk back to `u` would close a cycle with the growing edge
        obtain ⟨-, m, hm⟩ := hl u hul
        have hzero := hcycle u hu _ (.cons he hm)
        simp at hzero
      · rw [List.length_cons, hlength]
        exact Nat.add_comm n 1
      · exact List.forall_mem_cons.2 ⟨⟨hu, 0, .nil u⟩, hreach⟩

/-- **Where no cycle grows**, the growing edges of a walk are no more than the vertices. -/
theorem count_le (hS : S.Finite) (hclosed : ∀ u ∈ S, ∀ grows v, E u grows v → v ∈ S)
    (hcycle : ∀ v ∈ S, ∀ n, Walk E v n v → n = 0) (hu : u ∈ S) (h : Walk E u n v) :
    n ≤ S.ncard := by
  classical
  obtain ⟨l, hnodup, rfl, hl⟩ := h.exists_nodup hclosed hcycle hu
  have hsub : (l.toFinset : Set V) ⊆ S := fun x hx => (hl x (by simpa using hx)).1
  rw [← List.toFinset_card_of_nodup hnodup, ← Set.ncard_coe_finset]
  exact Set.ncard_le_ncard hsub hS

end Walk

end Il2Cpp
