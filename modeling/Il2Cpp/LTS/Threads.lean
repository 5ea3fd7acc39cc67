import Il2Cpp.LTS.Basic

/-!
# Systems of threads, and infinite runs

A concurrent component keeps a list of the places of its threads.  A step of one thread sets its
place and appends the threads that it creates.

* `countP_set_append`, `getElem?_set_append_of_ne` : what such a step does to the number of threads
  with a property, and to another thread.
* `LTS.Run` : infinite runs.
* `LTS.Run.exists_first` : the first step of a kind, and what holds until then.
-/

namespace Il2Cpp

section

variable {α : Type*} {p : α → Bool} {l : List α} {i j : ℕ} {a b : α}

/-- The number of threads with a property after thread `i` has taken a step. -/
theorem countP_set_append (h : l[i]? = some a) : ∃ n, l.countP p = n + (p a).toNat ∧
      ∀ b new, (l.set i b ++ new).countP p = n + (p b).toNat + new.countP p := by
  obtain ⟨hi, rfl⟩ := List.getElem?_eq_some_iff.1 h
  have hle : (p l[i]).toNat ≤ l.countP p := by
    cases hp : p l[i] with
    | false => simp
    | true => simpa using List.countP_pos_iff.2 ⟨_, List.getElem_mem hi, hp⟩
  refine ⟨l.countP p - (p l[i]).toNat, by omega, fun b new => ?_⟩
  rw [List.countP_append, List.countP_set hi]
  cases p l[i] <;> cases p b <;> simp

theorem getElem?_set_append_self (h : l[i]? = some a) (b : α) (new : List α) :
    (l.set i b ++ new)[i]? = some b := by
  obtain ⟨hi, -⟩ := List.getElem?_eq_some_iff.1 h
  rw [List.getElem?_append_left (by simpa using hi)]
  simp [hi]

theorem getElem?_set_append_of_ne (hij : i ≠ j) (h : l[j]? = some a) (b : α) (new : List α) :
    (l.set i b ++ new)[j]? = some a := by
  obtain ⟨hj, -⟩ := List.getElem?_eq_some_iff.1 h
  rw [List.getElem?_append_left (by simpa using hj), List.getElem?_set_ne hij, h]

theorem getElem?_append_cases {new : List α} (h : (l ++ new)[j]? = some a) :
    l[j]? = some a ∨ a ∈ new := by
  rw [List.getElem?_append] at h
  split_ifs at h
  · exact .inl h
  · exact .inr (List.mem_of_getElem? h)

/-- A thread after a step of thread `i`: that thread, another one, or a new one. -/
theorem getElem?_set_append_cases {new : List α} (h : (l.set i b ++ new)[j]? = some a) :
    (i = j ∧ b = a) ∨ l[j]? = some a ∨ a ∈ new := by
  rcases getElem?_append_cases h with h | h
  · rw [List.getElem?_set] at h
    split_ifs at h with hij hlt
    · exact .inl ⟨hij, Option.some.inj h⟩
    · exact .inr (.inl h)
  · exact .inr (.inr h)

/-- Two threads with a property that at most one has are the same. -/
theorem eq_of_countP_le_one (hc : l.countP p ≤ 1) (hi : l[i]? = some a) (hj : l[j]? = some b)
    (ha : p a = true) (hb : p b = true) : i = j := by
  induction l generalizing i j with
  | nil => simp at hi
  | cons c l ih =>
    rw [List.countP_cons] at hc
    cases i with
    | zero =>
      cases j with
      | zero => rfl
      | succ j =>
        simp only [List.getElem?_cons_zero, Option.some.injEq, List.getElem?_cons_succ] at hi hj
        have := List.countP_pos_iff.2 ⟨b, List.mem_of_getElem? hj, hb⟩
        rw [hi, if_pos ha] at hc
        omega
    | succ i =>
      cases j with
      | zero =>
        simp only [List.getElem?_cons_zero, Option.some.injEq, List.getElem?_cons_succ] at hi hj
        have := List.countP_pos_iff.2 ⟨a, List.mem_of_getElem? hi, ha⟩
        rw [hj, if_pos hb] at hc
        omega
      | succ j => rw [ih (by omega) hi hj]

end

namespace LTS

variable {S L : Type*} {A : LTS S L} {s₀ : S}

/-- An infinite run from `s₀`. -/
structure Run (A : LTS S L) (s₀ : S) where
  st : ℕ → S
  lab : ℕ → L
  zero : st 0 = s₀
  step : ∀ n, A.step (st n) (lab n) (st (n + 1))

namespace Run

variable (r : A.Run s₀)

/-- The states of a run are reached by its steps. -/
theorem reachWith {G : S → L → Prop} (hG : ∀ n, G (r.st n) (r.lab n)) :
    ∀ n, A.ReachWith G s₀ (r.st n)
  | 0 => by rw [r.zero]; exact .init
  | n + 1 => .step (reachWith hG n) (hG n) (r.step n)

theorem reachable : ∀ n, A.Reachable s₀ (r.st n) := r.reachWith fun _ => trivial

/-- **Until the first step of a kind.**  What the steps of other kinds preserve holds up to the
first step of the kind that is taken. -/
theorem exists_first {P : S → Prop} {F : L → Prop} {n : ℕ} (hP : P (r.st n))
    (hev : ∃ m, n ≤ m ∧ F (r.lab m))
    (hst : ∀ k, P (r.st k) → ¬ F (r.lab k) → P (r.st (k + 1))) :
    ∃ m, n ≤ m ∧ F (r.lab m) ∧ ∀ k, n ≤ k → k ≤ m → P (r.st k) := by
  classical
  obtain ⟨hle, hF⟩ := Nat.find_spec hev
  refine ⟨Nat.find hev, hle, hF, fun k hk => ?_⟩
  induction k, hk using Nat.le_induction with
  | base => exact fun _ => hP
  | succ k hk ih =>
    intro hlt
    exact hst k (ih (by omega)) fun hF => Nat.find_min hev hlt ⟨hk, hF⟩

end Run

end LTS

end Il2Cpp
