import Mathlib

/-!
# Computations that may not end

A computation is run with fuel, and more fuel does not change what it returns.

* `Fueled` : the computations, with `pure`, `bind` and `doWhile`.
* `Fueled.Returns` : what a computation returns with enough fuel (`returns_unique`).
* `Fueled.returns_bind_iff`, `Fueled.returns_doWhile_iff` : what composed computations return.
-/

namespace Il2Cpp

/-- A computation, which is `none` when its fuel does not suffice. -/
structure Fueled (α : Type*) where
  run : ℕ → Option α
  run_succ : ∀ fuel a, run fuel = some a → run (fuel + 1) = some a

namespace Fueled

variable {α β σ : Type*} {a a' : α} {b : β} {fuel fuel' : ℕ}

/-- The computation ends and its result is `a`. -/
def Returns (c : Fueled α) (a : α) : Prop := ∃ fuel, c.run fuel = some a

theorem run_of_le {c : Fueled α} (h : c.run fuel = some a) (hle : fuel ≤ fuel') :
    c.run fuel' = some a := by
  induction fuel', hle using Nat.le_induction with
  | base => exact h
  | succ fuel' _ ih => exact c.run_succ fuel' a ih

theorem returns_unique {c : Fueled α} (h : c.Returns a) (h' : c.Returns a') : a = a' := by
  obtain ⟨fuel, hrun⟩ := h
  obtain ⟨fuel', hrun'⟩ := h'
  have hmax := run_of_le hrun (Nat.le_max_left fuel fuel')
  exact Option.some.inj (hmax.symm.trans (run_of_le hrun' (Nat.le_max_right fuel fuel')))

/-- The computation that is over at once. -/
def pure (a : α) : Fueled α := ⟨fun _ => some a, fun _ _ h => h⟩

@[simp] theorem returns_pure_iff : (pure a).Returns a' ↔ a' = a :=
  ⟨fun ⟨_, h⟩ => (Option.some.inj h).symm, fun h => ⟨0, h ▸ rfl⟩⟩

/-- One computation after another. -/
def bind (c : Fueled α) (f : α → Fueled β) : Fueled β where
  run fuel := (c.run fuel).bind fun a => (f a).run fuel
  run_succ fuel b h := by
    obtain ⟨a, ha, hb⟩ := Option.bind_eq_some_iff.1 h
    exact Option.bind_eq_some_iff.2 ⟨a, c.run_succ fuel a ha, (f a).run_succ fuel b hb⟩

theorem returns_bind_iff {c : Fueled α} {f : α → Fueled β} :
    (c.bind f).Returns b ↔ ∃ a, c.Returns a ∧ (f a).Returns b := by
  constructor
  · rintro ⟨fuel, h⟩
    obtain ⟨a, ha, hb⟩ := Option.bind_eq_some_iff.1 h
    exact ⟨a, ⟨fuel, ha⟩, ⟨fuel, hb⟩⟩
  · rintro ⟨a, ⟨fuel, ha⟩, ⟨fuel', hb⟩⟩
    exact ⟨max fuel fuel', Option.bind_eq_some_iff.2 ⟨a,
      run_of_le ha (Nat.le_max_left fuel fuel'), run_of_le hb (Nat.le_max_right fuel fuel')⟩⟩

theorem returns_bind {c : Fueled α} {f : α → Fueled β} (h : c.Returns a) :
    (c.bind f).Returns b ↔ (f a).Returns b := by
  refine returns_bind_iff.trans ⟨fun ⟨a', ha', hb⟩ => ?_, fun hb => ⟨a, h, hb⟩⟩
  rwa [returns_unique h ha']

theorem returns_ite_iff {p : Prop} [Decidable p] {c c' : Fueled α} :
    (if p then c else c').Returns a ↔ p ∧ c.Returns a ∨ ¬p ∧ c'.Returns a := by
  split_ifs with hp
  · exact ⟨fun h => Or.inl ⟨hp, h⟩, fun h => (h.resolve_right fun h' => h'.1 hp).2⟩
  · exact ⟨fun h => Or.inr ⟨hp, h⟩, fun h => (h.resolve_left fun h' => hp h'.1).2⟩

/-! ### Loops -/

variable (body : σ → σ) (again : σ → Prop) [DecidablePred again]

/-- `do body while (again)` with fuel. -/
def doWhileRun : ℕ → σ → Option σ
  | 0, _ => none
  | fuel + 1, s => if again (body s) then doWhileRun fuel (body s) else some (body s)

variable {body again} {s t : σ}

theorem doWhileRun_eq_some_iff : doWhileRun body again fuel s = some t ↔
    ∃ n < fuel, (∀ i < n, again (body^[i + 1] s)) ∧ ¬again (body^[n + 1] s) ∧
      t = body^[n + 1] s := by
  induction fuel generalizing s with
  | zero =>
    exact iff_of_false (Option.some_ne_none t).symm fun ⟨n, hn, _⟩ => absurd hn n.not_lt_zero
  | succ fuel ih =>
    rw [doWhileRun]
    split_ifs with hagain
    · rw [ih]
      constructor
      · rintro ⟨n, hn, hall, hend, rfl⟩
        refine ⟨n + 1, Nat.succ_lt_succ hn, fun i hi => ?_, hend, rfl⟩
        cases i with
        | zero => exact hagain
        | succ i => exact hall i (Nat.lt_of_succ_lt_succ hi)
      · rintro ⟨n, hn, hall, hend, rfl⟩
        cases n with
        | zero => exact absurd hagain hend
        | succ n =>
          exact ⟨n, Nat.lt_of_succ_lt_succ hn, fun i hi => hall (i + 1) (Nat.succ_lt_succ hi), hend,
            rfl⟩
    · constructor
      · intro h
        exact ⟨0, Nat.succ_pos fuel, fun i hi => absurd hi i.not_lt_zero, hagain,
          (Option.some.inj h).symm⟩
      · rintro ⟨n, -, hall, -, rfl⟩
        cases n with
        | zero => rfl
        | succ n => exact absurd (hall 0 (Nat.succ_pos n)) hagain

variable (body again) in
/-- `do body while (again)`. -/
def doWhile (s : σ) : Fueled σ where
  run fuel := doWhileRun body again fuel s
  run_succ fuel t h := by
    obtain ⟨n, hn, hrest⟩ := doWhileRun_eq_some_iff.1 h
    exact doWhileRun_eq_some_iff.2 ⟨n, Nat.lt_succ_of_lt hn, hrest⟩

theorem returns_doWhile_iff : (doWhile body again s).Returns t ↔
    ∃ n, (∀ i < n, again (body^[i + 1] s)) ∧ ¬again (body^[n + 1] s) ∧ t = body^[n + 1] s := by
  constructor
  · rintro ⟨fuel, h⟩
    obtain ⟨n, -, hrest⟩ := doWhileRun_eq_some_iff.1 h
    exact ⟨n, hrest⟩
  · rintro ⟨n, hrest⟩
    exact ⟨n + 1, doWhileRun_eq_some_iff.2 ⟨n, Nat.lt_succ_self n, hrest⟩⟩

theorem returns_doWhile_step_iff : (doWhile body again s).Returns t ↔
    if again (body s) then (doWhile body again (body s)).Returns t else t = body s := by
  constructor
  · rintro ⟨fuel, h⟩
    cases fuel with
    | zero => exact nomatch h
    | succ fuel =>
      change (if again (body s) then doWhileRun body again fuel (body s) else some (body s)) =
        some t at h
      split_ifs at h ⊢
      · exact ⟨fuel, h⟩
      · exact (Option.some.inj h).symm
  · intro h
    split_ifs at h with hagain
    · obtain ⟨fuel, hfuel⟩ := h
      exact ⟨fuel + 1, (if_pos hagain).trans hfuel⟩
    · exact ⟨1, (if_neg hagain).trans (congrArg some h.symm)⟩

/-- The rule for loops with an invariant and a variant: `a` gets smaller in each pass. -/
theorem exists_returns_doWhile {r : α → α → Prop} (hr : WellFounded r) (Inv : α → σ → Prop)
    (Post : σ → Prop)
    (hstep : ∀ a s, Inv a s →
      if again (body s) then ∃ a', r a' a ∧ Inv a' (body s) else Post (body s))
    (h : Inv a s) : ∃ t, (doWhile body again s).Returns t ∧ Post t := by
  induction a using hr.induction generalizing s with
  | _ a ih =>
    have hpass := hstep a s h
    split_ifs at hpass with hagain
    · obtain ⟨a', hlt, hinv⟩ := hpass
      obtain ⟨t, ht, hpost⟩ := ih a' hlt hinv
      exact ⟨t, returns_doWhile_step_iff.2 (by rwa [if_pos hagain]), hpost⟩
    · exact ⟨body s, returns_doWhile_step_iff.2 (by rw [if_neg hagain]), hpass⟩

/-- A loop ends if and only if its condition fails after one of its passes. -/
theorem exists_returns_doWhile_iff :
    (∃ t, (doWhile body again s).Returns t) ↔ ∃ n, ¬again (body^[n + 1] s) := by
  constructor
  · rintro ⟨t, h⟩
    obtain ⟨n, -, hend, -⟩ := returns_doWhile_iff.1 h
    exact ⟨n, hend⟩
  · intro h
    refine ⟨_, returns_doWhile_iff.2 ⟨Nat.find h, fun i hi => ?_, Nat.find_spec h, rfl⟩⟩
    exact Decidable.not_not.1 (Nat.find_min h hi)

end Fueled

end Il2Cpp
