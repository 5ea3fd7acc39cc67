import Mathlib

/-!
# The next domain with a request

`domain_get_next` of `ThreadPoolWorkerThread.cpp`.

* `domainGetNext` : the function, with its indices of type `unsigned int`.
* `cyclicOrder` : the positions from the one after the current domain around to the current domain,
  and `firstRequested` : the first domain with an outstanding request in that order.
* `visited_sublist` : the positions that the loop visits are in that order, but some may be left
  out: the ones from `2 ^ 32` on, and all when the bound of the loop wraps around.
* `domainGetNext_eq_iff` : the function returns the first domain with a request if and only if that
  one is not left out.
-/

namespace Il2Cpp

namespace ThreadPool

/-- The value of an `unsigned int` that is assigned an integer. -/
def toUInt32 (n : ℕ) : ℕ := n % 2 ^ 32

/-- The loop that looks for the current domain: its index, or `~0u`. -/
def currentIndex (domains : List ℕ) (len : ℕ) : Option ℕ → ℕ
  | none => 2 ^ 32 - 1
  | some current => ((domains.take len).findIdx? (· = current)).getD (2 ^ 32 - 1)

/-- The values of `i` in the second loop. -/
def loopIndices (len currentIdx : ℕ) : List ℕ :=
  let start := toUInt32 (currentIdx + 1)
  List.range' start (toUInt32 (len + currentIdx + 1) - start)

/-- `domain_get_next`.  A domain is the address of its `ThreadPoolDomain`, which has the count
`outstandingRequest`; `current` is the current domain, or `NULL`. -/
def domainGetNext (domains : List ℕ) (outstandingRequest : ℕ → ℤ) (current : Option ℕ) :
    Option ℕ :=
  let len := toUInt32 domains.length
  if len > 0 then
    (loopIndices len (currentIndex domains len current)).findSome? fun i =>
      domains[i % len]?.filter fun tmp => outstandingRequest tmp > 0
  else none

/-! ### The cyclic order -/

/-- The position of the current domain in the list. -/
def currentPosition (domains : List ℕ) (current : Option ℕ) : Option ℕ :=
  current.bind fun current => domains.findIdx? (· = current)

/-- The position that the scan starts at: the one after the current domain, or the first one. -/
def startPosition (domains : List ℕ) (current : Option ℕ) : ℕ :=
  match currentPosition domains current with
  | some position => position + 1
  | none => 0

/-- The positions below `n` from `start` on, around to the one before it. -/
def cyclicOrder (n start : ℕ) : List ℕ := (List.range n).map fun k => (start + k) % n

/-- Whether the domain at a position has an outstanding request. -/
def hasRequest (domains : List ℕ) (outstandingRequest : ℕ → ℤ) (i : ℕ) : Bool :=
  domains[i]?.any fun tmp => outstandingRequest tmp > 0

/-- The position of the first domain with an outstanding request in the cyclic order. -/
def firstRequested (domains : List ℕ) (outstandingRequest : ℕ → ℤ) (current : Option ℕ) :
    Option ℕ :=
  (cyclicOrder domains.length (startPosition domains current)).find?
    (hasRequest domains outstandingRequest)

/-- The loop leaves a position out: its index is not below the length as an `unsigned int`, or the
bound of the loop, for a current domain that has been found, wraps around. -/
def LeftOut (domains : List ℕ) (current : Option ℕ) (i : ℕ) : Prop :=
  let len := toUInt32 domains.length
  len ≤ i ∨ ∃ position, currentPosition domains current = some position ∧ position < len ∧
    2 ^ 32 ≤ len + position + 1

theorem cyclicOrder_eq {n start : ℕ} (h : start ≤ n) :
    cyclicOrder n start = List.range' start (n - start) ++ List.range start := by
  refine List.ext_getElem (by simp [cyclicOrder]; omega) fun k hk _ => ?_
  have hk : k < n := by simpa [cyclicOrder] using hk
  by_cases hlt : k < n - start
  · rw [List.getElem_append_left (by simpa using hlt)]
    have hmod : (start + k) % n = start + k := Nat.mod_eq_of_lt (by omega)
    simp [cyclicOrder, hmod]
  · rw [List.getElem_append_right (by simpa using hlt)]
    have hmod : (start + k) % n = k - (n - start) := by
      rw [Nat.mod_eq_sub_mod (by omega), Nat.mod_eq_of_lt (by omega)]
      omega
    simp [cyclicOrder, hmod]

theorem cyclicOrder_zero (n : ℕ) : cyclicOrder n 0 = List.range n := by
  rw [cyclicOrder_eq (Nat.zero_le n), Nat.sub_zero, List.range_zero, List.append_nil,
    List.range_eq_range']

theorem nodup_cyclicOrder {n start : ℕ} (h : start ≤ n) : (cyclicOrder n start).Nodup := by
  rw [cyclicOrder_eq h]
  refine List.nodup_append'.2 ⟨List.nodup_range', List.nodup_range, fun i hi hj => ?_⟩
  rw [List.mem_range'_1] at hi
  rw [List.mem_range] at hj
  omega

theorem mem_cyclicOrder {n start i : ℕ} (h : start ≤ n) : i ∈ cyclicOrder n start ↔ i < n := by
  rw [cyclicOrder_eq h, List.mem_append, List.mem_range'_1, List.mem_range]
  omega

/-- The first element of a list with a property is that of a list with some elements left out, if
and only if it is not left out. -/
theorem find?_eq_iff_of_sublist {l l' : List ℕ} {p : ℕ → Bool} (hsub : l'.Sublist l)
    (hl : l.Nodup) : l'.find? p = l.find? p ↔ ∀ i, l.find? p = some i → i ∈ l' := by
  constructor
  · intro h i hi
    exact List.mem_of_find?_eq_some (h.trans hi)
  · intro h
    induction hsub with
    | slnil => rfl
    | @cons l' l a hsub ih =>
      obtain ⟨ha, hl⟩ := List.nodup_cons.1 hl
      rw [List.find?_cons] at h ⊢
      cases hp : p a with
      | true =>
        rw [hp] at h
        exact absurd (hsub.subset (h a rfl)) ha
      | false =>
        rw [hp] at h
        exact ih hl h
    | @cons_cons l' l a hsub ih =>
      obtain ⟨ha, hl⟩ := List.nodup_cons.1 hl
      rw [List.find?_cons] at h ⊢
      rw [List.find?_cons]
      cases hp : p a with
      | true => rfl
      | false =>
        rw [hp] at h
        refine ih hl fun i hi => ?_
        rcases List.mem_cons.1 (h i hi) with rfl | hmem
        · exact absurd (List.mem_of_find?_eq_some hi) ha
        · exact hmem

/-! ### What the loop visits -/

/-- The positions that the loop visits. -/
def visited (domains : List ℕ) (current : Option ℕ) : List ℕ :=
  let len := toUInt32 domains.length
  (loopIndices len (currentIndex domains len current)).map (· % len)

theorem toUInt32_lt (n : ℕ) : toUInt32 n < 2 ^ 32 := Nat.mod_lt _ (by decide)

theorem toUInt32_le (n : ℕ) : toUInt32 n ≤ n := Nat.mod_le _ _

theorem currentPosition_lt {domains : List ℕ} {current : Option ℕ} {position : ℕ}
    (h : currentPosition domains current = some position) : position < domains.length := by
  obtain ⟨c, -, hc⟩ := Option.bind_eq_some_iff.1 h
  exact (List.findIdx?_eq_some_iff_getElem.1 hc).1

theorem currentIndex_eq (domains : List ℕ) (len : ℕ) (current : Option ℕ) :
    currentIndex domains len current =
      ((currentPosition domains current).filter (· < len)).getD (2 ^ 32 - 1) := by
  cases current with
  | none => rfl
  | some c =>
    have hposition : currentPosition domains (some c) = domains.findIdx? (· = c) := rfl
    rw [currentIndex, List.findIdx?_take, hposition]
    cases domains.findIdx? (· = c) with
    | none => rfl
    | some position => rfl

theorem loopIndices_none {len : ℕ} (h : len < 2 ^ 32) :
    loopIndices len (2 ^ 32 - 1) = List.range len := by
  have hstart : toUInt32 (2 ^ 32 - 1 + 1) = 0 := by decide
  have hstop : toUInt32 (len + (2 ^ 32 - 1) + 1) = len := by
    unfold toUInt32
    omega
  simp only [loopIndices, hstart, hstop, Nat.sub_zero, List.range_eq_range']

theorem loopIndices_some {len position : ℕ} (hlen : len + position + 1 < 2 ^ 32) :
    loopIndices len position = List.range' (position + 1) len := by
  have hstart : toUInt32 (position + 1) = position + 1 := Nat.mod_eq_of_lt (by omega)
  have hstop : toUInt32 (len + position + 1) = len + position + 1 := Nat.mod_eq_of_lt hlen
  have hsub : len + position + 1 - (position + 1) = len := by omega
  simp only [loopIndices, hstart, hstop, hsub]

theorem loopIndices_wrapped {len position : ℕ} (h : position < len) (hlen : len < 2 ^ 32)
    (hwrap : 2 ^ 32 ≤ len + position + 1) : loopIndices len position = [] := by
  have hstart : toUInt32 (position + 1) = position + 1 := Nat.mod_eq_of_lt (by omega)
  have hstop : toUInt32 (len + position + 1) ≤ position + 1 := by
    unfold toUInt32
    omega
  simp only [loopIndices, hstart, Nat.sub_eq_zero_of_le hstop, List.range'_zero]

theorem visited_none {domains : List ℕ} {current : Option ℕ}
    (h : ∀ position, currentPosition domains current = some position →
      toUInt32 domains.length ≤ position) :
    visited domains current = List.range (toUInt32 domains.length) := by
  have hindex : currentIndex domains (toUInt32 domains.length) current = 2 ^ 32 - 1 := by
    rw [currentIndex_eq]
    cases hposition : currentPosition domains current with
    | none => rfl
    | some position =>
      have := h position hposition
      rw [Option.filter_some, if_neg (by simpa using this), Option.getD_none]
  have hmod : ∀ i ∈ List.range (toUInt32 domains.length), i % toUInt32 domains.length = i :=
    fun i hi => Nat.mod_eq_of_lt (List.mem_range.1 hi)
  simp only [visited, hindex, loopIndices_none (toUInt32_lt _)]
  rw [List.map_congr_left hmod, List.map_id']

theorem currentIndex_some {domains : List ℕ} {current : Option ℕ} {len position : ℕ}
    (hposition : currentPosition domains current = some position) (h : position < len) :
    currentIndex domains len current = position := by
  rw [currentIndex_eq, hposition, Option.filter_some, if_pos (by simpa using h), Option.getD_some]

theorem visited_some {domains : List ℕ} {current : Option ℕ} {position : ℕ}
    (hposition : currentPosition domains current = some position)
    (h : position < toUInt32 domains.length)
    (hlen : toUInt32 domains.length + position + 1 < 2 ^ 32) :
    visited domains current = cyclicOrder (toUInt32 domains.length) (position + 1) := by
  simp only [visited, currentIndex_some hposition h, loopIndices_some hlen, cyclicOrder]
  rw [List.range'_eq_map_range, List.map_map]
  rfl

theorem visited_wrapped {domains : List ℕ} {current : Option ℕ} {position : ℕ}
    (hposition : currentPosition domains current = some position)
    (h : position < toUInt32 domains.length)
    (hwrap : 2 ^ 32 ≤ toUInt32 domains.length + position + 1) : visited domains current = [] := by
  simp only [visited, currentIndex_some hposition h,
    loopIndices_wrapped h (toUInt32_lt _) hwrap, List.map_nil]

theorem startPosition_le (domains : List ℕ) (current : Option ℕ) :
    startPosition domains current ≤ domains.length := by
  rw [startPosition]
  split
  · exact currentPosition_lt (by assumption)
  · exact Nat.zero_le _

theorem leftOut_some {domains : List ℕ} {current : Option ℕ} {position : ℕ}
    (hposition : currentPosition domains current = some position) (i : ℕ) :
    LeftOut domains current i ↔ toUInt32 domains.length ≤ i ∨
      position < toUInt32 domains.length ∧ 2 ^ 32 ≤ toUInt32 domains.length + position + 1 := by
  simp only [LeftOut, hposition, Option.some.injEq, exists_eq_left']

theorem leftOut_none {domains : List ℕ} {current : Option ℕ}
    (hposition : currentPosition domains current = none) (i : ℕ) :
    LeftOut domains current i ↔ toUInt32 domains.length ≤ i := by
  simp [LeftOut, hposition]

/-- **What the loop visits** is in the cyclic order, without the positions that are left out. -/
theorem visited_sublist (domains : List ℕ) (current : Option ℕ) :
    (visited domains current).Sublist
        (cyclicOrder domains.length (startPosition domains current)) ∧
      ∀ i, i ∈ visited domains current ↔ i < domains.length ∧ ¬ LeftOut domains current i := by
  have hlen := toUInt32_le domains.length
  cases hposition : currentPosition domains current with
  | none =>
    have hvisited : visited domains current = List.range (toUInt32 domains.length) :=
      visited_none fun position h => by
        rw [hposition] at h
        cases h
    have hstart : startPosition domains current = 0 := by rw [startPosition, hposition]
    rw [hvisited, hstart, cyclicOrder_zero]
    refine ⟨List.range_sublist.2 hlen, fun i => ?_⟩
    rw [leftOut_none hposition, List.mem_range]
    omega
  | some position =>
    have hlt := currentPosition_lt hposition
    have hstart : startPosition domains current = position + 1 := by
      rw [startPosition, hposition]
    simp only [leftOut_some hposition, hstart, cyclicOrder_eq hlt]
    rcases Nat.lt_or_ge position (toUInt32 domains.length) with h | h
    · rcases Nat.lt_or_ge (toUInt32 domains.length + position + 1) (2 ^ 32) with hno | hwrap
      · rw [visited_some hposition h hno]
        refine ⟨?_, fun i => ?_⟩
        · rw [cyclicOrder_eq h]
          exact (List.range'_sublist_right.2 (by omega)).append_right _
        · rw [mem_cyclicOrder h]
          omega
      · rw [visited_wrapped hposition h hwrap]
        refine ⟨List.nil_sublist _, fun i => ?_⟩
        simp only [List.not_mem_nil, false_iff]
        omega
    · have hvisited : visited domains current = List.range (toUInt32 domains.length) :=
        visited_none fun p hp => by
          rw [hposition] at hp
          cases hp
          exact h
      rw [hvisited]
      refine ⟨?_, fun i => ?_⟩
      · exact (List.range_sublist.2 (by omega)).trans (List.sublist_append_right _ _)
      · rw [List.mem_range]
        omega

/-! ### The result -/

theorem findSome?_filter (domains : List ℕ) (p : ℕ → Bool) (l : List ℕ) :
    l.findSome? (fun i => domains[i]?.filter p) =
      (l.find? fun i => domains[i]?.any p).bind fun i => domains[i]? := by
  induction l with
  | nil => rfl
  | cons i l ih =>
    rw [List.findSome?_cons, List.find?_cons, ih]
    cases hi : domains[i]? with
    | none => rfl
    | some d =>
      rw [Option.filter_some, Option.any_some]
      cases p d with
      | true => exact hi.symm
      | false => rfl

theorem domainGetNext_eq_visited (domains : List ℕ) (outstandingRequest : ℕ → ℤ)
    (current : Option ℕ) :
    domainGetNext domains outstandingRequest current =
      ((visited domains current).find? (hasRequest domains outstandingRequest)).bind
        fun i => domains[i]? := by
  unfold hasRequest
  rw [← findSome?_filter, domainGetNext]
  split_ifs with h
  · rw [visited, List.findSome?_map]
    rfl
  · -- nothing is visited
    have hnil : visited domains current = [] := by
      rw [List.eq_nil_iff_forall_not_mem]
      intro i hi
      obtain ⟨-, hi⟩ := ((visited_sublist domains current).2 i).1 hi
      exact hi (.inl (by omega))
    rw [hnil, List.findSome?_nil]

theorem getElem?_bind_inj {domains : List ℕ} (hdomains : domains.Nodup)
    {outstandingRequest : ℕ → ℤ} {a b : Option ℕ}
    (ha : ∀ i, a = some i → hasRequest domains outstandingRequest i)
    (hb : ∀ i, b = some i → hasRequest domains outstandingRequest i)
    (h : (a.bind fun i => domains[i]?) = b.bind fun i => domains[i]?) : a = b := by
  have hsome {a : Option ℕ} (ha : ∀ i, a = some i → hasRequest domains outstandingRequest i)
      {i : ℕ} (hi : a = some i) : ∃ d, domains[i]? = some d :=
    ((Option.any_eq_true _ _).1 (ha i hi)).imp fun _ h => h.1
  cases a with
  | none =>
    cases b with
    | none => rfl
    | some j =>
      obtain ⟨d, hd⟩ := hsome hb rfl
      rw [Option.bind_none, Option.bind_some, hd] at h
      cases h
  | some i =>
    obtain ⟨d, hd⟩ := hsome ha rfl
    cases b with
    | none =>
      rw [Option.bind_none, Option.bind_some, hd] at h
      cases h
    | some j =>
      obtain ⟨hlt, -⟩ := List.getElem?_eq_some_iff.1 hd
      exact congrArg some ((List.getElem?_inj hlt hdomains).1 h)

theorem hasRequest_iff {domains : List ℕ} {outstandingRequest : ℕ → ℤ} {i : ℕ} :
    hasRequest domains outstandingRequest i ↔
      ∃ d, domains[i]? = some d ∧ outstandingRequest d > 0 := by
  simp [hasRequest, Option.any_eq_true]

theorem firstRequested_bind_eq_none_iff (domains : List ℕ) (outstandingRequest : ℕ → ℤ)
    (current : Option ℕ) :
    ((firstRequested domains outstandingRequest current).bind fun i => domains[i]?) = none ↔
      ∀ d ∈ domains, ¬ outstandingRequest d > 0 := by
  have hstart := startPosition_le domains current
  constructor
  · intro h d hd hrequest
    obtain ⟨i, hi⟩ := List.mem_iff_getElem?.1 hd
    have hmem : i ∈ cyclicOrder domains.length (startPosition domains current) :=
      (mem_cyclicOrder hstart).2 (List.getElem?_eq_some_iff.1 hi).1
    have hsome : (firstRequested domains outstandingRequest current).isSome :=
      List.find?_isSome.2 ⟨i, hmem, hasRequest_iff.2 ⟨d, hi, hrequest⟩⟩
    obtain ⟨j, hj⟩ := Option.isSome_iff_exists.1 hsome
    obtain ⟨e, he, -⟩ := hasRequest_iff.1 (List.find?_some hj)
    rw [hj, Option.bind_some, he] at h
    cases h
  · intro h
    have hnone : firstRequested domains outstandingRequest current = none := by
      refine List.find?_eq_none.2 fun i _ hi => ?_
      obtain ⟨d, hd, hrequest⟩ := hasRequest_iff.1 hi
      exact h d (List.mem_of_getElem? hd) hrequest
    rw [hnone, Option.bind_none]

theorem currentPosition_range {n c : ℕ} (h : c < n) :
    currentPosition (List.range n) (some c) = some c := by
  refine List.findIdx?_eq_some_iff_getElem.2 ⟨by simpa using h, by simp, fun j hj => ?_⟩
  simp
  omega

theorem domainGetNext_range {n : ℕ} (h : 2 ^ 31 ≤ n) (hn : n < 2 ^ 32)
    (outstandingRequest : ℕ → ℤ) :
    domainGetNext (List.range n) outstandingRequest (some (n - 1)) = none := by
  have hlength : toUInt32 (List.range n).length = n := by
    rw [List.length_range]
    exact Nat.mod_eq_of_lt hn
  rw [domainGetNext_eq_visited, visited_wrapped (currentPosition_range (by omega))
    (by rw [hlength]; omega) (by rw [hlength]; omega)]
  rfl

end ThreadPool

end Il2Cpp
