import Mathlib

/-!
# Decoders of binary data

A decoder reads bytes from a position on and may log what it has found.

* `Decoder W α` : a decoder that returns an `α` and logs a list of `W`.
* `Decoder.readBytes` : the primitive.
* `Decoder.Advances` : the position only grows.
* `Decoder.Silent` : nothing is logged.
* `Decoder.SkippedBy` : where one decoder succeeds, another one succeeds and stops at the same
  position.
-/

namespace Il2Cpp

/-- Why a decoder does not return. -/
inductive DecodeError
  /-- the data is invalid -/
  | invalid
  /-- the data is read outside its bounds, a null pointer is dereferenced, or an exception is
  thrown -/
  | undefined
  /-- the data is nested more deeply than was allowed for -/
  | depth
  deriving DecidableEq

/-- From a position on: what is logged, and the result with the position after it. -/
def Decoder (W α : Type) : Type := ℕ → List W × Except DecodeError (α × ℕ)

namespace Decoder

variable {W α β : Type}

protected def pure (a : α) : Decoder W α := fun pos => ([], .ok (a, pos))

protected def bind (x : Decoder W α) (f : α → Decoder W β) : Decoder W β := fun pos =>
  match x pos with
  | (w, .error e) => (w, .error e)
  | (w, .ok (a, pos')) => (w ++ (f a pos').1, (f a pos').2)

instance : Monad (Decoder W) where
  pure := Decoder.pure
  bind := Decoder.bind

/-- The decoder stops. -/
def fail (e : DecodeError) : Decoder W α := fun _ => ([], .error e)

def log (w : W) : Decoder W Unit := fun pos => ([w], .ok ((), pos))

def position : Decoder W ℕ := fun pos => ([], .ok (pos, pos))

/-- A pointer that must not be null. -/
def deref : Option α → Decoder W α
  | some a => pure a
  | none => fail .undefined

/-- The next `n` bytes. -/
def readBytes (bytes : List UInt8) (n : ℕ) : Decoder W (List UInt8) := fun pos =>
  ([], if pos + n ≤ bytes.length then .ok ((bytes.drop pos).take n, pos + n)
    else .error .undefined)

/-- The pointer is moved, also backwards. -/
def moveBy (n : ℤ) : Decoder W Unit := fun pos =>
  ([], if 0 ≤ pos + n then .ok ((), (pos + n).toNat) else .error .undefined)

/-- The decoder runs, and the position stays. -/
def lookAhead (x : Decoder W α) : Decoder W α := fun pos =>
  match x pos with
  | (w, .error e) => (w, .error e)
  | (w, .ok (a, _)) => (w, .ok (a, pos))

/-- The decoder returns `a` and stops at `pos'`. -/
def Returns (x : Decoder W α) (pos : ℕ) (a : α) (pos' : ℕ) : Prop := (x pos).2 = .ok (a, pos')

instance [DecidableEq α] (x : Decoder W α) (pos : ℕ) (a : α) (pos' : ℕ) :
    Decidable (x.Returns pos a pos') :=
  match h : (x pos).2 with
  | .ok r => decidable_of_iff (r = (a, pos')) (by simp [Returns, h])
  | .error _ => isFalse (by simp [Returns, h])

@[simp] theorem returns_pure {a b : α} {pos pos' : ℕ} :
    (pure a : Decoder W α).Returns pos b pos' ↔ a = b ∧ pos = pos' := by
  show Except.ok (a, pos) = Except.ok (b, pos') ↔ _
  simp

@[simp] theorem not_returns_fail {e : DecodeError} {pos pos' : ℕ} {a : α} :
    ¬ (fail e : Decoder W α).Returns pos a pos' :=
  nofun

@[simp] theorem returns_log {w : W} {pos pos' : ℕ} {u : Unit} :
    (log w).Returns pos u pos' ↔ pos = pos' := by
  show Except.ok ((), pos) = Except.ok (u, pos') ↔ _
  simp

@[simp] theorem returns_position {pos pos' a : ℕ} :
    (position : Decoder W ℕ).Returns pos a pos' ↔ pos = a ∧ pos = pos' := by
  show Except.ok (pos, pos) = Except.ok (a, pos') ↔ _
  simp

@[simp] theorem returns_deref {o : Option α} {a : α} {pos pos' : ℕ} :
    (deref o : Decoder W α).Returns pos a pos' ↔ o = some a ∧ pos = pos' := by
  cases o with
  | none => exact ⟨nofun, nofun⟩
  | some b => exact returns_pure.trans (by simp)

theorem returns_readBytes {bytes l : List UInt8} {n pos pos' : ℕ} :
    (readBytes bytes n : Decoder W _).Returns pos l pos' ↔
      pos + n ≤ bytes.length ∧ l = (bytes.drop pos).take n ∧ pos' = pos + n := by
  unfold Returns readBytes
  split_ifs with h <;> simp [h, eq_comm]

theorem returns_moveBy {n : ℤ} {u : Unit} {pos pos' : ℕ} :
    (moveBy n : Decoder W Unit).Returns pos u pos' ↔ pos + n = pos' := by
  unfold Returns moveBy
  split_ifs with h
  · simp only [Except.ok.injEq, Prod.mk.injEq, true_and]
    omega
  · simp only [false_iff]
    omega

theorem returns_lookAhead {x : Decoder W α} {a : α} {pos pos' : ℕ} :
    (lookAhead x).Returns pos a pos' ↔ pos = pos' ∧ ∃ p, x.Returns pos a p := by
  unfold Returns lookAhead
  rcases x pos with ⟨w, e | ⟨a, p⟩⟩ <;> simp [and_comm]

/-- A sequence of decoders. -/
theorem returns_bind {x : Decoder W α} {f : α → Decoder W β} {pos pos' : ℕ} {b : β} :
    (x >>= f).Returns pos b pos' ↔ ∃ a p, x.Returns pos a p ∧ (f a).Returns p b pos' := by
  show (Decoder.bind x f pos).2 = _ ↔ _
  unfold Decoder.bind Returns
  rcases x pos with ⟨w, e | ⟨a, p⟩⟩
  · simp
  · constructor
    · intro h
      exact ⟨a, p, rfl, h⟩
    · rintro ⟨_, _, ⟨⟩, h⟩
      exact h

/-- Two sequences that go on alike from where the first decoder stops. -/
theorem bind_congr {x : Decoder W α} {f g : α → Decoder W β} {pos p : ℕ} {a : α}
    (hx : x.Returns pos a p) (hfg : f a p = g a p) : (x >>= f) pos = (x >>= g) pos := by
  show Decoder.bind x f pos = Decoder.bind x g pos
  unfold Returns at hx
  unfold Decoder.bind
  rcases hxp : x pos with ⟨w, e | ⟨b, q⟩⟩
  · rfl
  · rw [hxp] at hx
    cases hx
    simp only [hfg]

theorem returns_map {f : α → β} {x : Decoder W α} {pos pos' : ℕ} {b : β} :
    (f <$> x).Returns pos b pos' ↔ ∃ a, x.Returns pos a pos' ∧ f a = b := by
  show (x >>= fun a => pure (f a)).Returns pos b pos' ↔ _
  simp [returns_bind]

/-! ### Decoders that only move forward -/

/-- Up to the end of the data the position only grows. -/
def Advances (size : ℕ) (x : Decoder W α) : Prop :=
  ∀ pos a pos', x.Returns pos a pos' → pos ≤ size → pos ≤ pos' ∧ pos' ≤ size

variable {size : ℕ}

/-- The decoder does not move. -/
theorem advances_of_eq {x : Decoder W α} (h : ∀ pos a pos', x.Returns pos a pos' → pos = pos') :
    Advances size x := by
  intro pos a pos' hx hle
  cases h _ _ _ hx
  exact ⟨le_rfl, hle⟩

theorem advances_pure (a : α) : Advances size (pure a : Decoder W α) :=
  advances_of_eq fun _ _ _ h => (returns_pure.1 h).2

theorem advances_fail (e : DecodeError) : Advances size (fail e : Decoder W α) :=
  fun _ _ _ h => absurd h not_returns_fail

theorem advances_log (w : W) : Advances size (log w) :=
  advances_of_eq fun _ _ _ h => returns_log.1 h

theorem advances_position : Advances size (position : Decoder W ℕ) :=
  advances_of_eq fun _ _ _ h => (returns_position.1 h).2

theorem advances_deref (o : Option α) : Advances size (deref o : Decoder W α) :=
  advances_of_eq fun _ _ _ h => (returns_deref.1 h).2

theorem advances_readBytes (bytes : List UInt8) (n : ℕ) :
    Advances bytes.length (readBytes bytes n : Decoder W _) := by
  intro pos l pos' h _
  obtain ⟨hle, -, rfl⟩ := returns_readBytes.1 h
  omega

theorem Advances.bind {x : Decoder W α} {f : α → Decoder W β} (hx : x.Advances size)
    (hf : ∀ a, (f a).Advances size) : (x >>= f).Advances size := by
  intro pos b pos' h hle
  obtain ⟨a, p, ha, hb⟩ := returns_bind.1 h
  obtain ⟨h₁, h₂⟩ := hx _ _ _ ha hle
  obtain ⟨h₃, h₄⟩ := hf a _ _ _ hb h₂
  exact ⟨h₁.trans h₃, h₄⟩

theorem Advances.map {x : Decoder W α} (f : α → β) (hx : x.Advances size) :
    (f <$> x).Advances size := by
  intro pos b pos' h
  obtain ⟨a, ha, -⟩ := returns_map.1 h
  exact hx _ _ _ ha

theorem Advances.ite {c : Prop} [Decidable c] {x y : Decoder W α} (hx : x.Advances size)
    (hy : y.Advances size) : (if c then x else y).Advances size := by
  split_ifs
  · exact hx
  · exact hy

/-! ### Depth -/

/-- The decoder stops because the data is nested too deeply. -/
def Overflows (x : Decoder W α) (pos : ℕ) : Prop := (x pos).2 = .error .depth

/-- The decoder never stops so. -/
def Shallow (x : Decoder W α) : Prop := ∀ pos, ¬ x.Overflows pos

theorem shallow_pure (a : α) : Shallow (pure a : Decoder W α) := fun _ => nofun

theorem shallow_fail {e : DecodeError} (he : e ≠ .depth) : Shallow (fail e : Decoder W α) := by
  intro _ h
  exact he (Except.error.inj h)

theorem shallow_deref (o : Option α) : Shallow (deref o : Decoder W α) := by
  cases o <;> exact fun _ => nofun

theorem shallow_readBytes (bytes : List UInt8) (n : ℕ) :
    Shallow (readBytes bytes n : Decoder W _) := by
  intro pos
  unfold Overflows readBytes
  split_ifs <;> simp

theorem shallow_moveBy (n : ℤ) : Shallow (moveBy n : Decoder W _) := by
  intro pos
  unfold Overflows moveBy
  split_ifs <;> simp

theorem overflows_lookAhead {x : Decoder W α} {pos : ℕ} :
    (lookAhead x).Overflows pos ↔ x.Overflows pos := by
  unfold Overflows lookAhead
  rcases x pos with ⟨w, e | ⟨a, p⟩⟩ <;> simp

theorem overflows_bind {x : Decoder W α} {f : α → Decoder W β} {pos : ℕ} :
    (x >>= f).Overflows pos ↔
      x.Overflows pos ∨ ∃ a p, x.Returns pos a p ∧ (f a).Overflows p := by
  show (Decoder.bind x f pos).2 = _ ↔ _
  unfold Decoder.bind Returns Overflows
  rcases x pos with ⟨w, e | ⟨a, p⟩⟩
  · simp
  · constructor
    · intro h
      exact .inr ⟨a, p, rfl, h⟩
    · rintro (h | ⟨_, _, ⟨⟩, h⟩)
      · cases h
      · exact h

theorem overflows_map {f : α → β} {x : Decoder W α} {pos : ℕ} :
    (f <$> x).Overflows pos ↔ x.Overflows pos := by
  show (x >>= fun a => pure (f a)).Overflows pos ↔ _
  rw [overflows_bind]
  exact or_iff_left fun ⟨_, p, _, h⟩ => shallow_pure _ p h

theorem Shallow.bind {x : Decoder W α} {f : α → Decoder W β} (hx : x.Shallow)
    (hf : ∀ a, (f a).Shallow) : (x >>= f).Shallow := by
  intro pos h
  rcases overflows_bind.1 h with h | ⟨a, p, -, h⟩
  · exact hx pos h
  · exact hf a p h

theorem Shallow.map {x : Decoder W α} (f : α → β) (hx : x.Shallow) : (f <$> x).Shallow :=
  fun pos h => hx pos (overflows_map.1 h)

theorem Shallow.lookAhead {x : Decoder W α} (hx : x.Shallow) : (Decoder.lookAhead x).Shallow :=
  fun pos h => hx pos (overflows_lookAhead.1 h)

theorem Shallow.ite {c : Prop} [Decidable c] {x y : Decoder W α} (hx : x.Shallow)
    (hy : y.Shallow) : (if c then x else y).Shallow := by
  split_ifs
  · exact hx
  · exact hy

/-- Up to the end of the data the decoder only moves forward, and the depth suffices. -/
structure Total (size : ℕ) (x : Decoder W α) : Prop where
  advances : x.Advances size
  not_overflows : ∀ pos ≤ size, ¬ x.Overflows pos

theorem Advances.total {x : Decoder W α} (hx : x.Advances size) (h : x.Shallow) : x.Total size :=
  ⟨hx, fun pos _ => h pos⟩

theorem total_pure (a : α) : Total size (pure a : Decoder W α) :=
  (advances_pure a).total (shallow_pure a)

theorem total_log (w : W) : Total size (log w) := (advances_log w).total fun _ => nofun

theorem Total.bind {x : Decoder W α} {f : α → Decoder W β} (hx : x.Total size)
    (hf : ∀ a, (f a).Total size) : (x >>= f).Total size := by
  refine ⟨hx.advances.bind fun a => (hf a).advances, fun pos hle ho => ?_⟩
  rcases overflows_bind.1 ho with ho | ⟨a, p, ha, ho⟩
  · exact hx.not_overflows pos hle ho
  · exact (hf a).not_overflows p (hx.advances _ _ _ ha hle).2 ho

/-! ### Logs -/

/-- The decoder logs nothing. -/
def Silent (x : Decoder W α) : Prop := ∀ pos, (x pos).1 = []

theorem silent_pure (a : α) : Silent (pure a : Decoder W α) := fun _ => rfl

theorem silent_readBytes (bytes : List UInt8) (n : ℕ) : Silent (readBytes bytes n : Decoder W _) :=
  fun _ => rfl

theorem silent_position : Silent (position : Decoder W ℕ) := fun _ => rfl

/-- What is logged after the first decoder has stopped. -/
theorem logged_bind {x : Decoder W α} {f : α → Decoder W β} {pos p : ℕ} {a : α}
    (h : x.Returns pos a p) : ((x >>= f) pos).1 = (x pos).1 ++ (f a p).1 := by
  show (Decoder.bind x f pos).1 = _
  unfold Returns at h
  unfold Decoder.bind
  rcases hx : x pos with ⟨w, e | ⟨b, q⟩⟩
  · rw [hx] at h
    cases h
  · rw [hx] at h
    cases h
    rfl

theorem Silent.bind {x : Decoder W α} {f : α → Decoder W β} (hx : x.Silent)
    (hf : ∀ a, (f a).Silent) : (x >>= f).Silent := by
  intro pos
  show (Decoder.bind x f pos).1 = []
  have hnil := hx pos
  unfold Decoder.bind
  rcases hxp : x pos with ⟨w, e | ⟨a, p⟩⟩
  · simpa [hxp] using hnil
  · simp only [hxp] at hnil
    simp only [hnil, List.nil_append]
    exact hf a p

theorem Silent.map {x : Decoder W α} (f : α → β) (hx : x.Silent) : (f <$> x).Silent :=
  hx.bind fun _ => silent_pure _

theorem Silent.ite {c : Prop} [Decidable c] {x y : Decoder W α} (hx : x.Silent)
    (hy : y.Silent) : (if c then x else y).Silent := by
  split_ifs
  · exact hx
  · exact hy

/-! ### Skipping -/

/-- Where `x` succeeds, `y` succeeds and stops at the same position. -/
def SkippedBy (x : Decoder W α) (y : Decoder W β) : Prop :=
  ∀ pos a pos', x.Returns pos a pos' → ∃ b, y.Returns pos b pos'

theorem SkippedBy.refl (x : Decoder W α) : x.SkippedBy x := fun _ a _ h => ⟨a, h⟩

theorem SkippedBy.pure (a : α) (b : β) :
    (Pure.pure a : Decoder W α).SkippedBy (Pure.pure b : Decoder W β) :=
  fun _ _ _ h => ⟨b, returns_pure.2 ⟨rfl, (returns_pure.1 h).2⟩⟩

theorem SkippedBy.log (w w' : W) : (Decoder.log w).SkippedBy (Decoder.log w') :=
  fun _ a _ h => ⟨a, returns_log.2 (returns_log.1 h)⟩

theorem SkippedBy.ite {c : Prop} [Decidable c] {x x' : Decoder W α} {y y' : Decoder W β}
    (h : x.SkippedBy y) (h' : x'.SkippedBy y') :
    (if c then x else x').SkippedBy (if c then y else y') := by
  split_ifs
  · exact h
  · exact h'

variable {γ δ : Type}

/-- The two go on alike after values that need not be the same. -/
theorem SkippedBy.bind {x : Decoder W α} {y : Decoder W β} {f : α → Decoder W γ}
    {g : β → Decoder W δ} (hxy : x.SkippedBy y) (hfg : ∀ a b, (f a).SkippedBy (g b)) :
    (x >>= f).SkippedBy (y >>= g) := by
  intro pos c pos' h
  obtain ⟨a, p, ha, hc⟩ := returns_bind.1 h
  obtain ⟨b, hb⟩ := hxy _ _ _ ha
  obtain ⟨d, hd⟩ := hfg a b _ _ _ hc
  exact ⟨d, returns_bind.2 ⟨b, p, hb, hd⟩⟩

/-- The two start with the same. -/
theorem SkippedBy.bind_same (x : Decoder W α) {f : α → Decoder W γ} {g : α → Decoder W δ}
    (hfg : ∀ a, (f a).SkippedBy (g a)) : (x >>= f).SkippedBy (x >>= g) := by
  intro pos c pos' h
  obtain ⟨a, p, ha, hc⟩ := returns_bind.1 h
  obtain ⟨d, hd⟩ := hfg a _ _ _ hc
  exact ⟨d, returns_bind.2 ⟨a, p, ha, hd⟩⟩

/-- A step that reads nothing is left out. -/
theorem SkippedBy.of_deref {o : Option α} {f : α → Decoder W γ} {y : Decoder W β}
    (hf : ∀ a, (f a).SkippedBy y) : (deref o >>= f).SkippedBy y := by
  intro pos c pos' h
  obtain ⟨a, p, ha, hc⟩ := returns_bind.1 h
  obtain ⟨-, rfl⟩ := returns_deref.1 ha
  exact hf a _ _ _ hc

end Decoder

end Il2Cpp
