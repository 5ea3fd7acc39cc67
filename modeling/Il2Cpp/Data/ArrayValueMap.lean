import Il2Cpp.Data.LowerBound

/-!
# `ArrayValueMap`

The sorted array of `utils/Collections.h`: a value stores its own key, several values may have one
key, and a lookup is a binary search.  An iterator is an index; `end` is the number of values.

`findFirst_ne_end_iff` and `find_ne_end_iff` : over a strict weak order a lookup misses no key.
-/

namespace Il2Cpp

/-- `ArrayValueMap`, its parameters being the converter from a value to its key and the comparers
of keys.  The constructors of the source sort the values. -/
structure ArrayValueMap (K V : Type) (valueToKey : V → K) (keyLess keyEquals : K → K → Bool) where
  /-- `m_Values`. -/
  values : Array V
  /-- No value has a key less than the key of a value before it. -/
  sorted : ∀ i j (hi : i < values.size) (hj : j < values.size), i ≤ j →
    keyLess (valueToKey values[j]) (valueToKey values[i]) = false

namespace ArrayValueMap

variable {K V : Type} {valueToKey : V → K} {keyLess keyEquals : K → K → Bool}
  (m : ArrayValueMap K V valueToKey keyLess keyEquals) (key : K)

/-- `end`. -/
def «end» : ℕ := m.values.size

/-- `lower_bound`, which compares with `LowerBoundFindComparer`. -/
def lowerBound : ℕ := Il2Cpp.lowerBound m.values fun v => keyLess (valueToKey v) key

/-- `upper_bound`, which compares with `UpperBoundFindComparer`. -/
def upperBound : ℕ := Il2Cpp.lowerBound m.values fun v => !keyLess key (valueToKey v)

/-- Whether the value at an iterator has the key. -/
def hasKey (ptr : ℕ) (h : ptr < m.values.size) : Bool :=
  keyEquals (valueToKey m.values[ptr]) key

/-- `find_first`. -/
def findFirst : ℕ :=
  if h : m.lowerBound key < m.values.size then
    if m.hasKey key (m.lowerBound key) h then m.lowerBound key else m.end
  else m.end

/-- The loop of `find` from an iterator on. -/
def findLoop (equalsPredicate : V → Bool) (ptr : ℕ) : ℕ :=
  if h : ptr < m.values.size then
    if m.hasKey key ptr h then
      if equalsPredicate m.values[ptr] then ptr else findLoop equalsPredicate (ptr + 1)
    else m.end
  else m.end
termination_by m.values.size - ptr

/-- `find` : the first value with the key that the predicate accepts. -/
def find (equalsPredicate : V → Bool) : ℕ := m.findLoop key equalsPredicate (m.lowerBound key)

variable {m}

theorem partitioned (ho : StrictWeakOrder keyLess keyEquals) (key : K) :
    Partitioned m.values fun v => keyLess (valueToKey v) key :=
  fun i j hi hj hij hlt => ho.less_of_le_of_less (m.sorted i j hi hj hij) hlt

theorem partitioned_le (ho : StrictWeakOrder keyLess keyEquals) (key : K) :
    Partitioned m.values fun v => !keyLess key (valueToKey v) := by
  intro i j hi hj hij hle
  rw [Bool.not_eq_true'] at hle ⊢
  by_contra hlt
  have := ho.less_of_less_of_le (by simpa using hlt) (m.sorted i j hi hj hij)
  simp [hle] at this

theorem upperBound_le (ho : StrictWeakOrder keyLess keyEquals) (key : K) :
    m.upperBound key ≤ m.values.size :=
  Il2Cpp.lowerBound_le (partitioned_le ho key)

/-- `upper_bound` splits the values into those whose key is not above the key, and the others. -/
theorem upperBound_spec (ho : StrictWeakOrder keyLess keyEquals) (key : K) {i : ℕ}
    (hi : i < m.values.size) :
    keyLess key (valueToKey m.values[i]) = false ↔ i < m.upperBound key := by
  rw [upperBound, ← lowerBound_spec (partitioned_le ho key) hi, Bool.not_eq_true']

theorem lowerBound_le (ho : StrictWeakOrder keyLess keyEquals) {i : ℕ}
    {hi : i < m.values.size} (hk : m.hasKey key i hi = true) : m.lowerBound key ≤ i := by
  have hnot := ((ho.incomparable_iff _ _).2 hk).1
  by_contra hlt
  have := (lowerBound_spec (partitioned ho key) hi).2 (Nat.not_le.1 hlt)
  simp [hnot] at this

/-- From the lower bound on, everything before a value with the key has the key too. -/
theorem hasKey_of_le (ho : StrictWeakOrder keyLess keyEquals) {i j : ℕ}
    {hi : i < m.values.size} (hj : j < m.values.size) (hk : m.hasKey key i hi = true)
    (hlo : m.lowerBound key ≤ j) (hij : j ≤ i) : m.hasKey key j hj = true := by
  refine (ho.incomparable_iff _ _).1 ⟨?_, ?_⟩
  · by_contra hlt
    have := (lowerBound_spec (partitioned ho key) hj).1 (by simpa using hlt)
    exact absurd hlo (Nat.not_le.2 this)
  · exact ho.not_less_of_equals (ho.equals_symm hk) (m.sorted j i hj hi hij)

/-- `find_first` returns `end` or a value with the key. -/
theorem hasKey_findFirst (h : m.findFirst key ≠ m.end) :
    ∃ hi : m.findFirst key < m.values.size, m.hasKey key (m.findFirst key) hi = true := by
  revert h
  unfold findFirst
  split_ifs with hlt hk
  · exact fun _ => ⟨hlt, hk⟩
  all_goals exact fun h => absurd rfl h

/-- **`find_first` finds a value exactly when one with the key is stored.** -/
theorem findFirst_ne_end_iff (ho : StrictWeakOrder keyLess keyEquals) :
    m.findFirst key ≠ m.end ↔ ∃ v ∈ m.values, keyEquals (valueToKey v) key = true := by
  constructor
  · intro h
    obtain ⟨hi, hk⟩ := hasKey_findFirst key h
    exact ⟨_, Array.getElem_mem hi, hk⟩
  · rintro ⟨v, hv, hk⟩
    obtain ⟨i, hi, rfl⟩ := Array.mem_iff_getElem.1 hv
    have hk : m.hasKey key i hi = true := hk
    have hle : m.lowerBound key ≤ i := lowerBound_le key ho hk
    have hlt : m.lowerBound key < m.values.size := by omega
    have hk' := hasKey_of_le key ho hlt hk le_rfl hle
    simp only [findFirst, hlt, hk', ↓reduceDIte, ↓reduceIte]
    exact ne_of_lt hlt

/-- The loop of `find` returns `end` or a value with the key that the predicate accepts. -/
theorem findLoop_sound (equalsPredicate : V → Bool) (ptr : ℕ)
    (h : m.findLoop key equalsPredicate ptr ≠ m.end) :
    ∃ hi : m.findLoop key equalsPredicate ptr < m.values.size,
      m.hasKey key (m.findLoop key equalsPredicate ptr) hi = true ∧
      equalsPredicate m.values[m.findLoop key equalsPredicate ptr] = true := by
  revert h
  fun_induction findLoop m key equalsPredicate ptr with
  | case1 ptr hlt hk hp => exact fun _ => ⟨hlt, hk, hp⟩
  | case2 ptr hlt hk hp ih => exact ih
  | case3 | case4 => exact fun h => absurd rfl h

/-- The loop of `find` passes no value that it looks for. -/
theorem findLoop_complete (ho : StrictWeakOrder keyLess keyEquals)
    {equalsPredicate : V → Bool} {i : ℕ} {hi : i < m.values.size}
    (hk : m.hasKey key i hi = true) (hp : equalsPredicate m.values[i] = true) (ptr : ℕ)
    (hlo : m.lowerBound key ≤ ptr) (hle : ptr ≤ i) :
    m.findLoop key equalsPredicate ptr ≤ i := by
  fun_induction findLoop m key equalsPredicate ptr with
  | case1 ptr => exact hle
  | case2 ptr hlt hk' hp' ih =>
    refine ih (by omega) (Nat.lt_of_le_of_ne hle ?_)
    rintro rfl
    exact hp' hp
  | case3 ptr hlt hk' => exact absurd (hasKey_of_le key ho hlt hk hlo hle) hk'
  | case4 ptr hge => omega

/-- **`find` finds a value exactly when one with the key is stored that the predicate accepts.** -/
theorem find_ne_end_iff (ho : StrictWeakOrder keyLess keyEquals)
    (equalsPredicate : V → Bool) :
    m.find key equalsPredicate ≠ m.end ↔
      ∃ v ∈ m.values, keyEquals (valueToKey v) key = true ∧ equalsPredicate v = true := by
  constructor
  · intro h
    obtain ⟨hi, hk, hp⟩ := findLoop_sound key equalsPredicate _ h
    exact ⟨_, Array.getElem_mem hi, hk, hp⟩
  · rintro ⟨v, hv, hk, hp⟩
    obtain ⟨i, hi, rfl⟩ := Array.mem_iff_getElem.1 hv
    have hk : m.hasKey key i hi = true := hk
    have hle := findLoop_complete key ho hk hp _ le_rfl (lowerBound_le key ho hk)
    exact ne_of_lt (lt_of_le_of_lt hle hi)

end ArrayValueMap

end Il2Cpp
