import Mathlib

/-!
# Depth-first search with pruning

A search goes through a graph from a node, in the order of its edges, until a node has what it looks
for.  Where it comes to a pruned node it turns back.

* `search` : the search, to a bounded depth.
* `Visits` : the paths without pruned nodes.
* `search_isSome_iff` : a search that is deep enough finds something if such a path leads to it.
-/

namespace PrunedSearch

variable {α β : Type*} (pruned : α → Bool) (found : α → Option β) (next : α → List α)

/-- The search from a node, along paths of fewer than the given number of edges. -/
def search : ℕ → α → Option β
  | 0, _ => none
  | n + 1, a => if pruned a then none else (found a).or ((next a).findSome? (search n))

/-- A path leads from one node to another on which no node is pruned, these two included. -/
inductive Visits : α → α → Prop
  | self {a : α} (h : pruned a = false) : Visits a a
  | next {a b c : α} (h : pruned a = false) (hb : b ∈ next a) (hc : Visits b c) : Visits a c

variable {pruned found next} {n : ℕ} {a : α}

/-- What is found is at the end of a path. -/
theorem exists_visits_of_search {e : β} (h : search pruned found next n a = some e) :
    ∃ b, Visits pruned next a b ∧ found b = some e := by
  induction n generalizing a with
  | zero => cases h
  | succ n ih =>
    rw [search] at h
    cases hpruned : pruned a with
    | true => simp [hpruned] at h
    | false =>
      rw [hpruned, if_neg Bool.false_ne_true, Option.or_eq_some_iff] at h
      rcases h with h | ⟨-, h⟩
      · exact ⟨a, .self hpruned, h⟩
      · obtain ⟨b, hb, h⟩ := List.exists_of_findSome?_eq_some h
        obtain ⟨c, hvisits, hfound⟩ := ih h
        exact ⟨c, .next hpruned hb hvisits, hfound⟩

/-- A search that is as deep as the graph finds what is at the end of a path. -/
theorem search_isSome_of_visits {depth : α → ℕ} (hdepth : ∀ a, ∀ b ∈ next a, depth b < depth a)
    {b : α} (hvisits : Visits pruned next a b) (hfound : (found b).isSome) (hn : depth a < n) :
    (search pruned found next n a).isSome := by
  induction hvisits generalizing n with
  | @self a hpruned =>
    obtain ⟨n, rfl⟩ := Nat.exists_eq_add_one_of_ne_zero (Nat.ne_zero_of_lt hn)
    simp [search, hpruned, Option.isSome_or, hfound]
  | @next a b c hpruned hb hvisits ih =>
    obtain ⟨n, rfl⟩ := Nat.exists_eq_add_one_of_ne_zero (Nat.ne_zero_of_lt hn)
    have hsome := ih hfound (n := n) (by have := hdepth a b hb; omega)
    rw [search, hpruned, if_neg Bool.false_ne_true, Option.isSome_or, Bool.or_eq_true]
    exact .inr (List.findSome?_isSome_iff.2 ⟨b, hb, hsome⟩)

theorem search_isSome_iff {depth : α → ℕ} (hdepth : ∀ a, ∀ b ∈ next a, depth b < depth a)
    (hn : depth a < n) :
    (search pruned found next n a).isSome ↔ ∃ b, Visits pruned next a b ∧ (found b).isSome := by
  constructor
  · intro h
    obtain ⟨e, he⟩ := Option.isSome_iff_exists.1 h
    obtain ⟨b, hvisits, hfound⟩ := exists_visits_of_search he
    exact ⟨b, hvisits, Option.isSome_iff_exists.2 ⟨e, hfound⟩⟩
  · rintro ⟨b, hvisits, hfound⟩
    exact search_isSome_of_visits hdepth hvisits hfound hn

end PrunedSearch
