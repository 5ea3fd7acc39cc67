import Mathlib

/-!
# A map whose values the collector sees

`gc/AppendOnlyGCHashMap.h`: a hash map from keys to indices, and an array of the values, which is
doubled when it is full.  The hash map is a list of its entries.

* `AppendOnlyGCHashMap.getOrAdd`, `AppendOnlyGCHashMap.tryGetValue` : the operations, each under the
  lock; there is no result if they read or write outside of the array, or read what was not written.
* `AppendOnlyGCHashMap.Wf` : the invariant of the entries, the array and its size.
* `getOrAdd_spec`, `tryGetValue_spec` : together they are one map, also when the array grows.
-/

namespace Il2Cpp

namespace GC

structure AppendOnlyGCHashMap (K V : Type) where
  map : List (K × ℕ)
  /-- The memory of `m_Data`; what was not written is `none`. -/
  data : List (Option V)
  size : ℕ

namespace AppendOnlyGCHashMap

variable {K V : Type} [DecidableEq K]

omit [DecidableEq K] in
variable (K V) in
/-- The constructor. -/
def empty : AppendOnlyGCHashMap K V := ⟨[], [], 0⟩

/-- `m_Map.find`. -/
def find (m : AppendOnlyGCHashMap K V) (k : K) : Option ℕ :=
  (m.map.find? fun e => e.1 = k).map fun e => e.2

omit [DecidableEq K] in
/-- `m_Data[index]`. -/
def read (m : AppendOnlyGCHashMap K V) (index : ℕ) : Option V := m.data[index]?.join

omit [DecidableEq K] in
/-- The array is allocated, or doubled when it is full. -/
def reserve (m : AppendOnlyGCHashMap K V) : AppendOnlyGCHashMap K V :=
  if m.size = 0 then { m with size := 8, data := List.replicate 8 none }
  else if m.map.length = m.size then
    { m with
      size := 2 * m.size
      data := m.data.take m.size ++ List.replicate (2 * m.size - m.size) none }
  else m

/-- `GetOrAdd`. -/
def getOrAdd (m : AppendOnlyGCHashMap K V) (k : K) (value : V) :
    Option (V × AppendOnlyGCHashMap K V) :=
  match m.find k with
  | some index => (m.read index).map fun v => (v, m)
  | none =>
    let m := m.reserve
    let index := m.map.length
    if index < m.data.length then
      some (value,
        { m with map := m.map ++ [(k, index)], data := m.data.set index (some value) })
    else none

/-- `TryGetValue`, with `none` for false. -/
def tryGetValue (m : AppendOnlyGCHashMap K V) (k : K) : Option (Option V) :=
  match m.find k with
  | none => some none
  | some index => (m.read index).map some

/-- The map that the entries and the array stand for. -/
def lookup (m : AppendOnlyGCHashMap K V) (k : K) : Option V := (m.find k).bind m.read

omit [DecidableEq K] in
/-- **The invariant**: an entry has its position as index, and a value there. -/
structure Wf (m : AppendOnlyGCHashMap K V) : Prop where
  data_length : m.data.length = m.size
  map_le : m.map.length ≤ m.size
  index : ∀ (i : ℕ) (e : K × ℕ), m.map[i]? = some e → e.2 = i ∧ ∃ v, m.data[i]? = some (some v)

omit [DecidableEq K] in
theorem wf_empty : (empty K V).Wf := ⟨rfl, Nat.le_refl _, by simp [empty]⟩

@[simp] theorem lookup_empty (k : K) : (empty K V).lookup k = none := rfl

variable {m : AppendOnlyGCHashMap K V}

omit [DecidableEq K] in
theorem Wf.of_mem (h : m.Wf) {e : K × ℕ} (he : e ∈ m.map) :
    e.2 < m.map.length ∧ ∃ v, m.data[e.2]? = some (some v) := by
  obtain ⟨i, hi⟩ := List.getElem?_of_mem he
  obtain ⟨heq, hv⟩ := h.index i e hi
  obtain ⟨hlt, -⟩ := List.getElem?_eq_some_iff.1 hi
  rw [heq]
  exact ⟨hlt, hv⟩

theorem find_eq_some {k : K} {i : ℕ} (h : m.find k = some i) : (k, i) ∈ m.map := by
  obtain ⟨e, he, rfl⟩ := Option.map_eq_some_iff.1 h
  have hk : e.1 = k := by simpa using List.find?_some he
  rw [← hk]
  exact List.mem_of_find?_eq_some he

theorem Wf.read_of_find (h : m.Wf) {k : K} {i : ℕ} (hfind : m.find k = some i) :
    i < m.map.length ∧ ∃ v, m.read i = some v := by
  obtain ⟨hlt, v, hv⟩ := h.of_mem (find_eq_some hfind)
  exact ⟨hlt, v, by rw [read, hv]; rfl⟩

/-- **`TryGetValue`** looks a key up. -/
theorem tryGetValue_spec (h : m.Wf) (k : K) : m.tryGetValue k = some (m.lookup k) := by
  rw [tryGetValue, lookup]
  cases hfind : m.find k with
  | none => rfl
  | some i =>
    obtain ⟨-, v, hv⟩ := h.read_of_find hfind
    simp [hv]

omit [DecidableEq K] in
/-- **Growth** keeps the entries and their values, and makes room for one more. -/
theorem reserve_spec (h : m.Wf) : m.reserve.map = m.map ∧
    m.reserve.data.length = m.reserve.size ∧ m.map.length < m.reserve.size ∧
    ∀ i < m.map.length, m.reserve.data[i]? = m.data[i]? := by
  have hdata := h.data_length
  have hle := h.map_le
  rw [reserve]
  split_ifs with hzero hfull
  · refine ⟨rfl, rfl, by simp only; omega, fun i hi => by omega⟩
  · refine ⟨rfl, ?_, by simp only; omega, fun i hi => ?_⟩
    · simp only [List.length_append, List.length_take, List.length_replicate]
      omega
    · have hlt : i < (m.data.take m.size).length := by
        rw [List.length_take]
        omega
      rw [List.getElem?_append_left hlt, List.getElem?_take_of_lt (by omega)]
  · exact ⟨rfl, hdata, by omega, fun _ _ => rfl⟩

omit [DecidableEq K] in
theorem Wf.reserve (h : m.Wf) : m.reserve.Wf := by
  obtain ⟨hmap, hlength, hlt, hdata⟩ := reserve_spec h
  refine ⟨hlength, by rw [hmap]; exact Nat.le_of_lt hlt, fun i e hi => ?_⟩
  rw [hmap] at hi
  obtain ⟨hi', -⟩ := List.getElem?_eq_some_iff.1 hi
  rw [hdata i hi']
  exact h.index i e hi

theorem lookup_reserve (h : m.Wf) (k : K) : m.reserve.lookup k = m.lookup k := by
  obtain ⟨hmap, -, -, hdata⟩ := reserve_spec h
  have hfind : m.reserve.find k = m.find k := by rw [find, find, hmap]
  rw [lookup, lookup, hfind]
  cases hk : m.find k with
  | none => rfl
  | some i => rw [Option.bind_some, Option.bind_some, read, read, hdata i (h.read_of_find hk).1]

omit [DecidableEq K] in
variable (m) in
/-- The map with one more entry, at the end. -/
def push (k : K) (value : V) : AppendOnlyGCHashMap K V :=
  { m with map := m.map ++ [(k, m.map.length)], data := m.data.set m.map.length (some value) }

omit [DecidableEq K] in
theorem Wf.push (h : m.Wf) (hlt : m.map.length < m.size) (k : K) (value : V) :
    (m.push k value).Wf := by
  have hlength := h.data_length
  refine ⟨List.length_set.trans hlength, ?_, fun i e hi => ?_⟩
  · simp only [AppendOnlyGCHashMap.push, List.length_append, List.length_singleton]
    omega
  · simp only [AppendOnlyGCHashMap.push] at hi ⊢
    rcases Nat.lt_trichotomy i m.map.length with hlt' | rfl | hgt
    · rw [List.getElem?_append_left hlt'] at hi
      rw [List.getElem?_set_ne (Nat.ne_of_gt hlt')]
      exact h.index i e hi
    · rw [List.getElem?_concat_length] at hi
      obtain rfl := Option.some.inj hi
      exact ⟨rfl, value, List.getElem?_set_self (by omega)⟩
    · rw [List.getElem?_eq_none (by simp; omega)] at hi
      cases hi

theorem find_push (k k' : K) (value : V) :
    (m.push k value).find k' =
      (m.find k').or (if k' = k then some m.map.length else none) := by
  rw [find, find, push, List.find?_append]
  cases hfind : m.map.find? fun e => e.1 = k' with
  | some e => simp
  | none =>
    by_cases hk : k' = k
    · simp [hk]
    · simp [hk, Ne.symm hk]

omit [DecidableEq K] in
theorem read_push (hlength : m.map.length < m.data.length) (k : K) (value : V) (i : ℕ) :
    (m.push k value).read i = if i = m.map.length then some value else m.read i := by
  rw [read, read, push]
  split_ifs with hi
  · rw [hi, List.getElem?_set_self hlength]
    rfl
  · rw [List.getElem?_set_ne (Ne.symm hi)]

theorem lookup_push (h : m.Wf) (hlt : m.map.length < m.size) {k : K} (hnone : m.find k = none)
    (value : V) (k' : K) :
    (m.push k value).lookup k' = if k' = k then some value else m.lookup k' := by
  have hroom : m.map.length < m.data.length := h.data_length ▸ hlt
  rw [lookup, find_push, lookup]
  cases hfind : m.find k' with
  | some i =>
    have hk : k' ≠ k := by
      rintro rfl
      rw [hnone] at hfind
      cases hfind
    have hne : i ≠ m.map.length := Nat.ne_of_lt (h.read_of_find hfind).1
    rw [Option.some_or, Option.bind_some, Option.bind_some, read_push hroom, if_neg hne, if_neg hk]
  | none =>
    rw [Option.none_or]
    split_ifs with hk
    · rw [Option.bind_some, read_push hroom, if_pos rfl]
    · rfl

/-- **`GetOrAdd`** gives the value of the key, and adds the new one if there is none. -/
theorem getOrAdd_spec (h : m.Wf) (k : K) (value : V) :
    ∃ v m', m.getOrAdd k value = some (v, m') ∧ m'.Wf ∧ v = (m.lookup k).getD value ∧
      ∀ k', m'.lookup k' = if k' = k then some v else m.lookup k' := by
  rw [getOrAdd, lookup]
  cases hfind : m.find k with
  | some i =>
    obtain ⟨-, v, hv⟩ := h.read_of_find hfind
    refine ⟨v, m, by simp [hv], h, by simp [hv], fun k' => ?_⟩
    split_ifs with hk
    · rw [hk, lookup, hfind, Option.bind_some, hv]
    · rfl
  | none =>
    obtain ⟨hmap, hlength, hlt, -⟩ := reserve_spec h
    have hroom : m.reserve.map.length < m.reserve.size := by rwa [hmap]
    have hnone : m.reserve.find k = none := by rw [← hfind, find, find, hmap]
    refine ⟨value, m.reserve.push k value, if_pos (by rwa [hlength]), h.reserve.push hroom k value,
      rfl, fun k' => ?_⟩
    rw [lookup_push h.reserve hroom hnone, lookup_reserve h]

end AppendOnlyGCHashMap

end GC

end Il2Cpp
