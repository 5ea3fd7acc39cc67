import Mathlib

/-!
# Programs that record what they do

A program over states records events in the order in which they happen, and may stop early.  Some
events are required to be `safe`, and each program relies on its events being `good`: two
properties of the single events.

* `Traced` : the programs, a monad.
* `Traced.Triple` : from states with `P`, if all events are good then they are safe, and a result
  meets `Q`.
* `Traced.Reflects` : if some event is not good, then some event is not safe.
* `Triple.bind`, `Reflects.bind` : both are kept by the operations of the monad.
-/

namespace Il2Cpp

/-- A program over states `σ` that records events `ε` and may stop with `ρ`. -/
def Traced (σ ε ρ α : Type) : Type := σ → List ε × Except ρ (α × σ)

namespace Traced

variable {σ ε ρ α β : Type}

/-- One program after the other. -/
def andThen (m : Traced σ ε ρ α) (f : α → Traced σ ε ρ β) : Traced σ ε ρ β := fun s =>
  match m s with
  | (events, .error r) => (events, .error r)
  | (events, .ok (a, t)) => (events ++ (f a t).1, (f a t).2)

instance : Monad (Traced σ ε ρ) where
  pure a s := ([], .ok (a, s))
  bind := andThen

/-- Stops early. -/
def stop (r : ρ) : Traced σ ε ρ α := fun _ => ([], .error r)

/-- The state. -/
def state : Traced σ ε ρ σ := fun s => ([], .ok (s, s))

/-- Records an event at the state. -/
def emit (event : σ → ε) : Traced σ ε ρ Unit := fun s => ([event s], .ok ((), s))

/-- Goes to another state. -/
def update (f : σ → σ) : Traced σ ε ρ Unit := fun s => ([], .ok ((), f s))

@[simp] theorem pure_apply (a : α) (s : σ) :
    (pure a : Traced σ ε ρ α) s = ([], .ok (a, s)) := rfl

@[simp] theorem stop_apply (r : ρ) (s : σ) : (stop r : Traced σ ε ρ α) s = ([], .error r) := rfl

@[simp] theorem state_apply (s : σ) : (state : Traced σ ε ρ σ) s = ([], .ok (s, s)) := rfl

@[simp] theorem emit_apply (event : σ → ε) (s : σ) :
    (emit event : Traced σ ε ρ Unit) s = ([event s], .ok ((), s)) := rfl

@[simp] theorem update_apply (f : σ → σ) (s : σ) :
    (update f : Traced σ ε ρ Unit) s = ([], .ok ((), f s)) := rfl

theorem bind_apply (m : Traced σ ε ρ α) (f : α → Traced σ ε ρ β) (s : σ) :
    (m >>= f) s =
      match m s with
      | (events, .error r) => (events, .error r)
      | (events, .ok (a, t)) => (events ++ (f a t).1, (f a t).2) := rfl

/-- What a program records stays recorded. -/
theorem mem_bind {m : Traced σ ε ρ α} {f : α → Traced σ ε ρ β} {s : σ} {e : ε}
    (h : e ∈ (m s).1) : e ∈ ((m >>= f) s).1 := by
  rw [bind_apply]
  rcases heq : m s with ⟨events, r | ⟨a, t⟩⟩
  · rwa [heq] at h
  · rw [heq] at h
    exact List.mem_append_left _ h

variable (good safe : ε → Prop)

/-- From a state with `P`: if all events are good then all are safe, and a result meets `Q`. -/
def Triple (P : σ → Prop) (m : Traced σ ε ρ α) (Q : α → σ → Prop) : Prop :=
  ∀ s, P s → (∀ e ∈ (m s).1, good e) →
    (∀ e ∈ (m s).1, safe e) ∧ ∀ a t, (m s).2 = .ok (a, t) → Q a t

/-- An event that is not good comes with one that is not safe. -/
def Reflects (m : Traced σ ε ρ α) : Prop :=
  ∀ s, (∀ e ∈ (m s).1, safe e) → ∀ e ∈ (m s).1, good e

variable {good safe} {P P' : σ → Prop} {Q Q' : α → σ → Prop} {R : β → σ → Prop}
  {m : Traced σ ε ρ α} {f : α → Traced σ ε ρ β}

namespace Triple

theorem weaken (h : Triple good safe P m Q) (hP : ∀ s, P' s → P s)
    (hQ : ∀ a s, Q a s → Q' a s) : Triple good safe P' m Q' := fun s hs hgood =>
  have hm := h s (hP s hs) hgood
  ⟨hm.1, fun a t hr => hQ a t (hm.2 a t hr)⟩

protected theorem pure {a : α} (h : ∀ s, P s → Q a s) :
    Triple good safe P (pure a : Traced σ ε ρ α) Q := by
  intro s hs _
  refine ⟨nofun, fun b t hr => ?_⟩
  cases hr
  exact h s hs

protected theorem stop {r : ρ} : Triple good safe P (stop r : Traced σ ε ρ α) Q :=
  fun _ _ _ => ⟨nofun, nofun⟩

protected theorem state : Triple good safe P (state : Traced σ ε ρ σ) fun t s => P s ∧ t = s := by
  intro s hs _
  refine ⟨nofun, fun b t hr => ?_⟩
  cases hr
  exact ⟨hs, rfl⟩

/-- An event that is good is known to be good afterwards. -/
protected theorem emit {event : σ → ε} (h : ∀ s, P s → good (event s) → safe (event s)) :
    Triple good safe P (emit event : Traced σ ε ρ Unit) fun _ s => P s ∧ good (event s) := by
  intro s hs hgood
  have hevent := hgood (event s) (.head _)
  refine ⟨fun e he => ?_, fun b t hr => ?_⟩
  · obtain rfl := List.mem_singleton.1 he
    exact h s hs hevent
  · cases hr
    exact ⟨hs, hevent⟩

protected theorem update {g : σ → σ} {S : σ → Prop} (h : ∀ s, P s → S (g s)) :
    Triple good safe P (update g : Traced σ ε ρ Unit) fun _ => S := by
  intro s hs _
  refine ⟨nofun, fun b t hr => ?_⟩
  cases hr
  exact h s hs

protected theorem bind (hm : Triple good safe P m Q) (hf : ∀ a, Triple good safe (Q a) (f a) R) :
    Triple good safe P (m >>= f) R := by
  intro s hs hgood
  rw [bind_apply] at hgood ⊢
  have hm := hm s hs
  rcases heq : m s with ⟨events, r | ⟨a, t⟩⟩
  · rw [heq] at hgood hm
    exact ⟨(hm hgood).1, nofun⟩
  · rw [heq] at hgood hm
    obtain ⟨hsafe, hQ⟩ := hm fun e he => hgood e (List.mem_append_left _ he)
    obtain ⟨hsafe', hR⟩ := hf a t (hQ a t rfl) fun e he => hgood e (List.mem_append_right _ he)
    exact ⟨List.forall_mem_append.2 ⟨hsafe, hsafe'⟩, hR⟩

protected theorem ite {c : Prop} [Decidable c] {m' : Traced σ ε ρ α}
    (hm : c → Triple good safe P m Q) (hm' : ¬ c → Triple good safe P m' Q) :
    Triple good safe P (if c then m else m') Q := by
  split
  case isTrue h => exact hm h
  case isFalse h => exact hm' h

end Triple

namespace Reflects

protected theorem pure {a : α} : Reflects good safe (pure a : Traced σ ε ρ α) :=
  fun _ _ => nofun

protected theorem stop {r : ρ} : Reflects good safe (stop r : Traced σ ε ρ α) :=
  fun _ _ => nofun

protected theorem state : Reflects good safe (state : Traced σ ε ρ σ) := fun _ _ => nofun

protected theorem update {g : σ → σ} : Reflects good safe (update g : Traced σ ε ρ Unit) :=
  fun _ _ => nofun

/-- An event whose safety is enough. -/
protected theorem emit {event : σ → ε} (h : ∀ s, good (event s)) :
    Reflects good safe (emit event : Traced σ ε ρ Unit) := by
  intro s _ e he
  obtain rfl := List.mem_singleton.1 he
  exact h s

/-- An event that is good because what follows is safe. -/
theorem emit_bind {event : σ → ε} {f : Unit → Traced σ ε ρ α}
    (h : ∀ s, (∀ e ∈ (f () s).1, safe e) → good (event s)) (hf : Reflects good safe (f ())) :
    Reflects good safe (emit event >>= f) := by
  intro s hsafe
  rw [bind_apply] at hsafe ⊢
  have hrest := (List.forall_mem_append.1 hsafe).2
  exact List.forall_mem_append.2 ⟨List.forall_mem_singleton.2 (h s hrest), hf s hrest⟩

protected theorem bind (hm : Reflects good safe m) (hf : ∀ a, Reflects good safe (f a)) :
    Reflects good safe (m >>= f) := by
  intro s hsafe
  rw [bind_apply] at hsafe ⊢
  have hm := hm s
  rcases heq : m s with ⟨events, r | ⟨a, t⟩⟩
  · rw [heq] at hsafe hm
    exact hm hsafe
  · rw [heq] at hsafe hm
    obtain ⟨h₁, h₂⟩ := List.forall_mem_append.1 hsafe
    exact List.forall_mem_append.2 ⟨hm h₁, hf a t h₂⟩

protected theorem ite {c : Prop} [Decidable c] {m' : Traced σ ε ρ α} (hm : Reflects good safe m)
    (hm' : Reflects good safe m') : Reflects good safe (if c then m else m') := by
  split
  · exact hm
  · exact hm'

end Reflects

end Traced

end Il2Cpp
