import Il2Cpp.Data.ForwardList

/-!
# Ephemerons

The ephemeron arrays of `BoehmGC.cpp`: a singly linked list of nodes, each with a weak link to an
array of keys and values.

* `clearEphemerons` : at the end of marking, edits the list and the entries while it walks the list.
* `pushEphemerons` : when the mark stack is empty, pushes values, which marks them.
* `clearEphemerons_spec` : the unmarked arrays are removed, and the entries of the others with an
  unmarked key are cleared.  Entries whose key is NULL or the tombstone are empty, and stay.
* `pushEphemerons_spec` : an entry that is not empty, of a marked array, has its value pushed when
  its key is marked at the time that it is looked at.
* `pushEphemerons_closed` : when it marks nothing more, there is nothing left to mark.
-/

namespace Il2Cpp

namespace Ephemerons

variable {N O : Type} [DecidableEq N] [DecidableEq O]

structure Ephemeron (O : Type) where
  key : Option O
  value : Option O
  deriving DecidableEq

/-- The nodes of the list, with the array that their weak link points to, and the arrays. -/
structure Memory (N O : Type) where
  /-- `ephemeron_list`, and the nodes' `next`. -/
  nodes : ForwardList N
  array : N → O
  entries : O → List (Ephemeron O)

/-! ### Clearing -/

/-- A null or tombstone (empty) key is skipped. -/
def Ephemeron.isEmpty (tombstone : Option O) (e : Ephemeron O) : Bool :=
  e.key.isNone || e.key = tombstone

/-- One entry in `clear_ephemerons`. -/
def clearEntry (tombstone : Option O) (isMarked : O → Bool) (e : Ephemeron O) : Ephemeron O :=
  if e.isEmpty tombstone then e
  -- If the key is not marked, then set it to the tombstone and the value to NULL.
  else if !e.key.any isMarked then ⟨tombstone, none⟩
  else e

/-- The entries of one array in `clear_ephemerons`. -/
def Memory.clearArray (tombstone : Option O) (isMarked : O → Bool) (m : Memory N O) (array : O) :
    Memory N O :=
  let cleared := (m.entries array).map (clearEntry tombstone isMarked)
  { m with entries := Function.update m.entries array cleared }

/-- The loop of `clear_ephemerons`; there is no result if it takes more than `n` steps. -/
def clearLoop (tombstone : Option O) (isMarked : O → Bool) :
    ℕ → Option N → Option N → Memory N O → Option (Memory N O)
  | 0, _, _, _ => none
  | _ + 1, _, none, m => some m
  | n + 1, prevNode, some currentNode, m =>
    let array := m.array currentNode
    if !isMarked array then
      let m := { m with nodes := m.nodes.unlink prevNode currentNode }
      clearLoop tombstone isMarked n prevNode (m.nodes.next currentNode) m
    else
      let m := m.clearArray tombstone isMarked array
      clearLoop tombstone isMarked n (some currentNode) (m.nodes.next currentNode) m

def clearEphemerons (tombstone : Option O) (isMarked : O → Bool) (n : ℕ) (m : Memory N O) :
    Option (Memory N O) :=
  clearLoop tombstone isMarked n none m.nodes.head m

/-! ### Pushing -/

/-- The marks and the mark stack. -/
structure Marker (O : Type) where
  isMarked : O → Bool
  markStack : List O
  /-- What `GC_mark_and_push` has been called with, in order. -/
  pushed : List O

/-- `GC_mark_and_push`: an object that is marked already, or without pointers, does not go on the
mark stack. -/
def markAndPush (hasPointers : O → Bool) (g : Marker O) (v : O) : Marker O where
  isMarked := Function.update g.isMarked v true
  markStack := if g.isMarked v || !hasPointers v then g.markStack else v :: g.markStack
  pushed := g.pushed ++ [v]

/-- One entry in `push_ephemerons`. -/
def pushEntry (hasPointers : O → Bool) (tombstone : Option O) (g : Marker O) (e : Ephemeron O) :
    Marker O :=
  if e.isEmpty tombstone then g
  -- If the key is not marked, then don't mark value.
  else if !e.key.any g.isMarked then g
  else
    match e.value with
    | some v => markAndPush hasPointers g v
    | none => g

/-- The loop of `push_ephemerons`. -/
def pushLoop (hasPointers : O → Bool) (tombstone : Option O) (m : Memory N O) :
    ℕ → Option N → Marker O → Option (Marker O)
  | 0, _, _ => none
  | _ + 1, none, g => some g
  | n + 1, some currentNode, g =>
    let array := m.array currentNode
    let g :=
      if !g.isMarked array then g
      else (m.entries array).foldl (pushEntry hasPointers tombstone) g
    pushLoop hasPointers tombstone m n (m.nodes.next currentNode) g

def pushEphemerons (hasPointers : O → Bool) (tombstone : Option O) (n : ℕ) (m : Memory N O)
    (g : Marker O) : Option (Marker O) :=
  pushLoop hasPointers tombstone m n m.nodes.head g

/-! ### The entries -/

section Clear

variable {tombstone : Option O} {isMarked : O → Bool}

omit [DecidableEq N]

/-- An entry has a key that is not marked, and is not empty. -/
def Ephemeron.Dead (tombstone : Option O) (isMarked : O → Bool) (e : Ephemeron O) : Prop :=
  ∃ k, e.key = some k ∧ some k ≠ tombstone ∧ isMarked k = false

/-- **One entry**: a tombstone without a value, or as it was. -/
theorem clearEntry_eq (e : Ephemeron O) :
    (e.Dead tombstone isMarked → clearEntry tombstone isMarked e = ⟨tombstone, none⟩) ∧
      (¬ e.Dead tombstone isMarked → clearEntry tombstone isMarked e = e) := by
  obtain ⟨key, value⟩ := e
  cases key with
  | none => simp [Ephemeron.Dead, clearEntry, Ephemeron.isEmpty]
  | some k =>
    by_cases hk : some k = tombstone
    · subst hk
      simp [Ephemeron.Dead, clearEntry, Ephemeron.isEmpty]
    · cases hmark : isMarked k <;>
        simp [Ephemeron.Dead, clearEntry, Ephemeron.isEmpty, hk, hmark]

theorem clearEntry_clearEntry (e : Ephemeron O) :
    clearEntry tombstone isMarked (clearEntry tombstone isMarked e) =
      clearEntry tombstone isMarked e := by
  by_cases h : e.Dead tombstone isMarked
  · rw [(clearEntry_eq e).1 h]
    simp [clearEntry, Ephemeron.isEmpty]
  · rw [(clearEntry_eq e).2 h, (clearEntry_eq e).2 h]

@[simp] theorem Memory.clearArray_nodes (m : Memory N O) (o : O) :
    (m.clearArray tombstone isMarked o).nodes = m.nodes := rfl

@[simp] theorem Memory.clearArray_array (m : Memory N O) (o : O) :
    (m.clearArray tombstone isMarked o).array = m.array := rfl

theorem Memory.clearArray_self (m : Memory N O) (o : O) :
    (m.clearArray tombstone isMarked o).entries o =
      (m.entries o).map (clearEntry tombstone isMarked) := Function.update_self ..

theorem Memory.clearArray_of_ne (m : Memory N O) {o o' : O} (h : o' ≠ o) :
    (m.clearArray tombstone isMarked o).entries o' = m.entries o' := Function.update_of_ne h ..

/-- The entries after clearing: those of the marked arrays of the list are cleared. -/
structure Cleared (tombstone : Option O) (isMarked : O → Bool) (l : List N) (m m' : Memory N O) :
    Prop where
  array : m'.array = m.array
  of_mem : ∀ p ∈ l, isMarked (m.array p) →
    m'.entries (m.array p) = (m.entries (m.array p)).map (clearEntry tombstone isMarked)
  of_not_mem : ∀ o, (∀ p ∈ l, isMarked (m.array p) → m.array p ≠ o) → m'.entries o = m.entries o

theorem Cleared.nil (m : Memory N O) : Cleared tombstone isMarked [] m m :=
  ⟨rfl, by simp, fun _ _ => rfl⟩

theorem Cleared.cons_unmarked {l : List N} {m m' : Memory N O} {p : N}
    (hp : isMarked (m.array p) = false) (h : Cleared tombstone isMarked l m m') :
    Cleared tombstone isMarked (p :: l) m m' := by
  refine ⟨h.array, ?_, fun o ho => h.of_not_mem o fun q hq => ho q (List.mem_cons_of_mem p hq)⟩
  intro q hq hmark
  rcases List.mem_cons.1 hq with rfl | hq
  · rw [hp] at hmark
    cases hmark
  · exact h.of_mem q hq hmark

theorem Cleared.cons_marked {l : List N} {m m' : Memory N O} {p : N} (hp : isMarked (m.array p))
    (h : Cleared tombstone isMarked l (m.clearArray tombstone isMarked (m.array p)) m') :
    Cleared tombstone isMarked (p :: l) m m' := by
  have hself : m'.entries (m.array p) =
      (m.entries (m.array p)).map (clearEntry tombstone isMarked) := by
    by_cases hmem : ∃ q ∈ l, m.array q = m.array p
    · obtain ⟨q, hq, heq⟩ := hmem
      have hagain := h.of_mem q hq (by rwa [Memory.clearArray_array, heq])
      rw [Memory.clearArray_array, heq, Memory.clearArray_self, List.map_map] at hagain
      rw [hagain]
      exact List.map_congr_left fun e _ => clearEntry_clearEntry e
    · have hold := h.of_not_mem (m.array p) fun q hq _ heq => hmem ⟨q, hq, heq⟩
      rw [hold, Memory.clearArray_self]
  refine ⟨h.array, fun q hq hmark => ?_, fun o ho => ?_⟩
  · by_cases heq : m.array q = m.array p
    · rw [heq, hself]
    · rcases List.mem_cons.1 hq with rfl | hq
      · exact absurd rfl heq
      · have hnew := h.of_mem q hq hmark
        rwa [Memory.clearArray_array, Memory.clearArray_of_ne m heq] at hnew
  · have hpo : o ≠ m.array p := (ho p List.mem_cons_self hp).symm
    have hold := h.of_not_mem o fun q hq => ho q (List.mem_cons_of_mem p hq)
    rw [hold, Memory.clearArray_of_ne m hpo]

variable [DecidableEq N]

theorem clearLoop_spec (rest : List N) {kept : List N} {m : Memory N O} {n : ℕ}
    (h : m.nodes.Represents (kept ++ rest)) (hn : rest.length < n) :
    ∃ m', clearLoop tombstone isMarked n kept.getLast? rest.head? m = some m' ∧
      m'.nodes.Represents (kept ++ rest.filter fun p => isMarked (m.array p)) ∧
      Cleared tombstone isMarked rest m m' := by
  induction rest generalizing kept m n with
  | nil =>
    obtain ⟨n, rfl⟩ := Nat.exists_eq_add_of_lt hn
    exact ⟨m, by rw [clearLoop.eq_def]; simp, h, .nil m⟩
  | cons p rest ih =>
    obtain ⟨n, rfl⟩ : ∃ k, n = k + 1 := ⟨n - 1, by omega⟩
    rw [List.length_cons] at hn
    rw [List.head?_cons, clearLoop]
    cases hp : isMarked (m.array p) with
    | false =>
      -- the walk goes on from the node that is taken out
      obtain ⟨m', hloop, hnodes, hcleared⟩ :=
        ih (m := { m with nodes := m.nodes.unlink kept.getLast? p }) h.unlink (n := n) (by omega)
      refine ⟨m', ?_, ?_, ?_⟩
      · simpa only [Bool.not_false, if_true, h.unlink_next] using hloop
      · rw [List.filter_cons_of_neg (by simp [hp])]
        exact hnodes
      · exact .cons_unmarked hp ⟨hcleared.array, hcleared.of_mem, hcleared.of_not_mem⟩
    | true =>
      have hnext : m.nodes.next p = rest.head? := ForwardList.Linked.next_eq h
      have hkept : m.nodes.Represents ((kept ++ [p]) ++ rest) := by simpa using h
      obtain ⟨m', hloop, hnodes, hcleared⟩ :=
        ih (m := m.clearArray tombstone isMarked (m.array p)) hkept (n := n) (by omega)
      refine ⟨m', ?_, ?_, .cons_marked hp hcleared⟩
      · rw [List.getLast?_concat] at hloop
        simpa [hnext] using hloop
      · rw [List.filter_cons_of_pos (by simp [hp])]
        simpa using hnodes

end Clear

/-! ### The values -/

section Push

variable {hasPointers : O → Bool} {tombstone : Option O}

/-- The entries of the arrays of the list, in the order in which the loop comes to them. -/
def visits (m : Memory N O) (l : List N) : List (O × Ephemeron O) :=
  l.flatMap fun p => (m.entries (m.array p)).map fun e => (m.array p, e)

/-- The value that an entry of an array has pushed, with these marks. -/
def visitValue (tombstone : Option O) (isMarked : O → Bool) (visit : O × Ephemeron O) : Option O :=
  if isMarked visit.1 && !visit.2.isEmpty tombstone && visit.2.key.any isMarked then visit.2.value
  else none

/-- The marks when some values have been pushed. -/
def marksAfter (isMarked : O → Bool) (values : List O) (o : O) : Bool :=
  isMarked o || values.contains o

theorem visitValue_eq_some_iff {isMarked : O → Bool} {array : O} {e : Ephemeron O} {v : O} :
    visitValue tombstone isMarked (array, e) = some v ↔ isMarked array ∧
      (∃ k, e.key = some k ∧ some k ≠ tombstone ∧ isMarked k) ∧ e.value = some v := by
  obtain ⟨key, value⟩ := e
  cases key with
  | none => simp [visitValue, Ephemeron.isEmpty]
  | some k => simp [visitValue, Ephemeron.isEmpty, and_assoc]

/-- An entry, with the test of its array. -/
def pushVisit (hasPointers : O → Bool) (tombstone : Option O) (g : Marker O)
    (visit : O × Ephemeron O) : Marker O :=
  if g.isMarked visit.1 then pushEntry hasPointers tombstone g visit.2 else g

omit [DecidableEq N]

theorem pushVisit_eq (g : Marker O) (visit : O × Ephemeron O) :
    pushVisit hasPointers tombstone g visit =
      match visitValue tombstone g.isMarked visit with
      | some v => markAndPush hasPointers g v
      | none => g := by
  obtain ⟨array, key, value⟩ := visit
  cases harray : g.isMarked array with
  | false => simp [pushVisit, visitValue, harray]
  | true =>
    simp only [pushVisit, visitValue, pushEntry, harray, if_true, Bool.true_and]
    cases Ephemeron.isEmpty tombstone ⟨key, value⟩ with
    | true => simp
    | false => cases hkey : key.any g.isMarked <;> simp

theorem isMarked_pushVisit {g : Marker O} {o : O} (h : g.isMarked o) (visit : O × Ephemeron O) :
    (pushVisit hasPointers tombstone g visit).isMarked o := by
  rw [pushVisit_eq]
  split
  · rename_i v _
    by_cases hv : o = v
    · simp [markAndPush, hv]
    · simpa [markAndPush, hv] using h
  · exact h

theorem foldl_pushVisit (array : O) (entries : List (Ephemeron O)) (g : Marker O) :
    (entries.map fun e => (array, e)).foldl (pushVisit hasPointers tombstone) g =
      if !g.isMarked array then g else entries.foldl (pushEntry hasPointers tombstone) g := by
  induction entries generalizing g with
  | nil => simp
  | cons e entries ih =>
    rw [List.map_cons, List.foldl_cons, ih]
    cases harray : g.isMarked array with
    | false => simp [pushVisit, harray]
    | true =>
      rw [isMarked_pushVisit harray]
      simp [pushVisit, harray]

theorem pushLoop_eq {m : Memory N O} {start : Option N} {l : List N}
    (h : ForwardList.Linked m.nodes.next start l) {n : ℕ} (hn : l.length < n) (g : Marker O) :
    pushLoop hasPointers tombstone m n start g =
      some ((visits m l).foldl (pushVisit hasPointers tombstone) g) := by
  induction l generalizing start n g with
  | nil =>
    obtain rfl : start = none := h
    obtain ⟨n, rfl⟩ : ∃ k, n = k + 1 := ⟨n - 1, by omega⟩
    rfl
  | cons p l ih =>
    obtain ⟨rfl, hl⟩ := h
    obtain ⟨n, rfl⟩ : ∃ k, n = k + 1 := ⟨n - 1, by omega⟩
    rw [List.length_cons] at hn
    rw [pushLoop, ih hl (by omega), visits, visits, List.flatMap_cons, List.foldl_append,
      foldl_pushVisit]

/-- What some entries have pushed, each with the marks at its time. -/
structure Results (tombstone : Option O) (g : Marker O) (visits : List (O × Ephemeron O))
    (g' : Marker O) (results : List (Option O)) : Prop where
  length : results.length = visits.length
  pushed : g'.pushed = g.pushed ++ results.reduceOption
  isMarked : g'.isMarked = marksAfter g.isMarked results.reduceOption
  visit : ∀ i visit, visits[i]? = some visit → results[i]? =
    some (visitValue tombstone (marksAfter g.isMarked (results.take i).reduceOption) visit)

theorem Results.concat {g g' : Marker O} {l : List (O × Ephemeron O)} {results : List (Option O)}
    (h : Results tombstone g l g' results) (visit : O × Ephemeron O) :
    Results tombstone g (l ++ [visit]) (pushVisit hasPointers tombstone g' visit)
      (results ++ [visitValue tombstone g'.isMarked visit]) := by
  refine ⟨by simp [h.length], ?_, ?_, fun i visit' hi => ?_⟩
  · rw [pushVisit_eq, List.reduceOption_append, List.reduceOption_singleton]
    cases visitValue tombstone g'.isMarked visit with
    | none => simp [h.pushed]
    | some v => simp [markAndPush, h.pushed]
  · rw [pushVisit_eq, List.reduceOption_append, List.reduceOption_singleton]
    cases visitValue tombstone g'.isMarked visit with
    | none => simp [h.isMarked]
    | some v =>
      funext o
      by_cases hv : o = v <;> simp [markAndPush, marksAfter, h.isMarked, hv]
  · rcases Nat.lt_trichotomy i l.length with hlt | rfl | hgt
    · rw [List.getElem?_append_left hlt] at hi
      rw [List.getElem?_append_left (by rwa [h.length]), h.visit i visit' hi,
        List.take_append_of_le_length (by rw [h.length]; exact Nat.le_of_lt hlt)]
    · rw [List.getElem?_concat_length] at hi
      cases hi
      rw [← h.length, List.getElem?_concat_length, List.take_left', h.isMarked]
      rfl
    · rw [List.getElem?_eq_none (by simp; omega)] at hi
      cases hi

theorem exists_results (hasPointers : O → Bool) (tombstone : Option O) (g : Marker O)
    (l : List (O × Ephemeron O)) :
    ∃ results, Results tombstone g l (l.foldl (pushVisit hasPointers tombstone) g) results := by
  induction l using List.reverseRecOn with
  | nil =>
    refine ⟨[], rfl, by simp, ?_, by simp⟩
    funext o
    simp [marksAfter]
  | append_singleton l visit ih =>
    obtain ⟨results, h⟩ := ih
    rw [List.foldl_concat]
    exact ⟨_, h.concat visit⟩

theorem Results.closed {g g' : Marker O} {l : List (O × Ephemeron O)} {results : List (Option O)}
    (h : Results tombstone g l g' results) (hmarks : g'.isMarked = g.isMarked) {array : O}
    {e : Ephemeron O} {k v : O} (hmem : (array, e) ∈ l) (harray : g.isMarked array)
    (hkey : e.key = some k) (hk : some k ≠ tombstone) (hmark : g.isMarked k)
    (hvalue : e.value = some v) : g.isMarked v := by
  obtain ⟨i, hi⟩ := List.getElem?_of_mem hmem
  have hvisit := h.visit i _ hi
  have hpushes : visitValue tombstone
      (marksAfter g.isMarked (results.take i).reduceOption) (array, e) = some v := by
    simp [visitValue, marksAfter, Ephemeron.isEmpty, harray, hkey, hk, hmark, hvalue]
  rw [hpushes] at hvisit
  have hpushed : v ∈ results.reduceOption :=
    List.reduceOption_mem_iff.2 (List.mem_of_getElem? hvisit)
  rw [← hmarks, h.isMarked]
  simp [marksAfter, hpushed]

end Push

section

variable {tombstone : Option O} {m : Memory N O} {l : List N} {n : ℕ}

/-- **Clearing** removes the unmarked arrays from the list, and clears the entries of the others
that have a key which is not marked and are not empty. -/
theorem clearEphemerons_spec (h : m.nodes.Represents l) (hn : l.length < n)
    (isMarked : O → Bool) :
    ∃ m', clearEphemerons tombstone isMarked n m = some m' ∧
      m'.nodes.Represents (l.filter fun p => isMarked (m.array p)) ∧
      m'.array = m.array ∧
      ∀ o, (m'.entries o).length = (m.entries o).length ∧
        ∀ (i : ℕ) (e : Ephemeron O), (m.entries o)[i]? = some e →
          let cleared := (∃ p ∈ l, m.array p = o) ∧ isMarked o ∧ e.Dead tombstone isMarked
          (cleared → (m'.entries o)[i]? = some ⟨tombstone, none⟩) ∧
            (¬ cleared → (m'.entries o)[i]? = some e) := by
  obtain ⟨m', hloop, hnodes, hcleared⟩ :=
    @clearLoop_spec _ _ _ tombstone isMarked _ l [] m n h hn
  have hhead : m.nodes.head = l.head? := ForwardList.Linked.start_eq h
  refine ⟨m', by rw [clearEphemerons, hhead]; exact hloop, hnodes, hcleared.array, fun o => ?_⟩
  by_cases ho : (∃ p ∈ l, m.array p = o) ∧ isMarked o
  · obtain ⟨⟨p, hp, rfl⟩, hmark⟩ := ho
    rw [hcleared.of_mem p hp hmark]
    refine ⟨List.length_map _, fun i e hi => ⟨fun hdead => ?_, fun hlive => ?_⟩⟩
    · rw [List.getElem?_map, hi, Option.map_some, (clearEntry_eq e).1 hdead.2.2]
    · have hlive : ¬ e.Dead tombstone isMarked := fun hdead =>
        hlive ⟨⟨p, hp, rfl⟩, hmark, hdead⟩
      rw [List.getElem?_map, hi, Option.map_some, (clearEntry_eq e).2 hlive]
  · have hold : m'.entries o = m.entries o := by
      refine hcleared.of_not_mem o fun p hp hmark heq => ho ⟨⟨p, hp, heq⟩, ?_⟩
      rwa [← heq]
    rw [hold]
    exact ⟨rfl, fun i e hi => ⟨fun hdead => absurd ⟨hdead.1, hdead.2.1⟩ ho, fun _ => hi⟩⟩

omit [DecidableEq N] in
/-- **Pushing**: the entries come one after the other, and each pushes the value that
`visitValue` gives it with the marks at its time. -/
theorem pushEphemerons_spec (h : m.nodes.Represents l) (hn : l.length < n)
    (hasPointers : O → Bool) (g : Marker O) :
    ∃ g' results, pushEphemerons hasPointers tombstone n m g = some g' ∧
      Results tombstone g (visits m l) g' results := by
  obtain ⟨results, hresults⟩ := exists_results hasPointers tombstone g (visits m l)
  exact ⟨_, results, pushLoop_eq h hn g, hresults⟩

omit [DecidableEq N] in
/-- **Nothing left to mark**: when pushing marks no more objects, the values of all entries with a
marked key, in the marked arrays of the list, are marked. -/
theorem pushEphemerons_closed (h : m.nodes.Represents l) (hn : l.length < n)
    {hasPointers : O → Bool} {g g' : Marker O}
    (hpush : pushEphemerons hasPointers tombstone n m g = some g')
    (hmarks : g'.isMarked = g.isMarked) {p : N} {e : Ephemeron O} {k v : O} (hp : p ∈ l)
    (harray : g.isMarked (m.array p)) (he : e ∈ m.entries (m.array p)) (hkey : e.key = some k)
    (hk : some k ≠ tombstone) (hmark : g.isMarked k) (hvalue : e.value = some v) :
    g.isMarked v := by
  obtain ⟨g'', results, hpush', hresults⟩ :=
    @pushEphemerons_spec _ _ _ tombstone _ _ _ h hn hasPointers g
  obtain rfl := Option.some.inj (hpush.symm.trans hpush')
  have hmem : (m.array p, e) ∈ visits m l :=
    List.mem_flatMap.2 ⟨p, hp, List.mem_map_of_mem he⟩
  exact hresults.closed hmarks hmem harray hkey hk hmark hvalue

/-- **Ephemerons**: clearing and pushing, for every list of arrays, every content and every
marking. -/
theorem ephemerons_spec (h : m.nodes.Represents l) (hn : l.length < n) (isMarked : O → Bool)
    (hasPointers : O → Bool) (g : Marker O) :
    (∃ m', clearEphemerons tombstone isMarked n m = some m' ∧
      m'.nodes.Represents (l.filter fun p => isMarked (m.array p)) ∧
      m'.array = m.array ∧
      ∀ o, (m'.entries o).length = (m.entries o).length ∧
        ∀ (i : ℕ) (e : Ephemeron O), (m.entries o)[i]? = some e →
          let cleared := (∃ p ∈ l, m.array p = o) ∧ isMarked o ∧ e.Dead tombstone isMarked
          (cleared → (m'.entries o)[i]? = some ⟨tombstone, none⟩) ∧
            (¬ cleared → (m'.entries o)[i]? = some e)) ∧
    ∃ g', ∃ results : List (Option O), pushEphemerons hasPointers tombstone n m g = some g' ∧
      results.length = (visits m l).length ∧
      g'.pushed = g.pushed ++ results.reduceOption ∧
      ∀ (i : ℕ) (array : O) (e : Ephemeron O), (visits m l)[i]? = some (array, e) →
        let marked := marksAfter g.isMarked (results.take i).reduceOption
        ∀ v, results[i]? = some (some v) ↔ marked array ∧
          (∃ k, e.key = some k ∧ some k ≠ tombstone ∧ marked k) ∧ e.value = some v := by
  refine ⟨clearEphemerons_spec h hn isMarked, ?_⟩
  obtain ⟨g', results, hpush, hresults⟩ := pushEphemerons_spec h hn hasPointers g
  refine ⟨g', results, hpush, hresults.length, hresults.pushed, fun i array e hi v => ?_⟩
  rw [hresults.visit i _ hi, Option.some.injEq, visitValue_eq_some_iff]

end

/-- Two arrays, of which the second one is marked.  The key 5 is not marked, the keys 6 and 7 are,
and 7 is the tombstone. -/
def twoArrays : Memory ℕ ℕ where
  nodes := ⟨some 0, fun p => if p = 0 then some 1 else none⟩
  array p := p + 1
  entries o := if o = 2 then [⟨some 5, some 8⟩, ⟨some 6, some 9⟩, ⟨some 7, some 10⟩] else []

def isMarkedTwo (o : ℕ) : Bool := [2, 6, 7].contains o

theorem ephemerons_spec_twoArrays :
    (∃ m', clearEphemerons (some 7) isMarkedTwo 3 twoArrays = some m' ∧
      m'.nodes.Represents [1] ∧ (m'.entries 2)[0]? = some ⟨some 7, none⟩) ∧
      ∃ g', pushEphemerons (fun _ => true) (some 7) 3 twoArrays ⟨isMarkedTwo, [], []⟩ = some g' := by
  have hnodes : twoArrays.nodes.Represents [0, 1] := ⟨rfl, rfl, rfl⟩
  have hdead : Ephemeron.Dead (some 7) isMarkedTwo ⟨some 5, some 8⟩ :=
    ⟨5, rfl, by decide, by decide⟩
  obtain ⟨⟨m', hclear, hrepresents, -, hentries⟩, g', -, hpush, -⟩ :=
    @ephemerons_spec _ _ _ _ (some 7) _ _ 3 hnodes (by decide) isMarkedTwo (fun _ => true)
      ⟨isMarkedTwo, [], []⟩
  refine ⟨⟨m', hclear, hrepresents, ?_⟩, g', hpush⟩
  exact ((hentries 2).2 0 _ rfl).1 ⟨⟨1, by decide, rfl⟩, by decide, hdead⟩

/-- The key of the third entry is the tombstone, which is marked: its value is not pushed. -/
theorem pushEphemerons_tombstone :
    isMarkedTwo 2 = true ∧ isMarkedTwo 7 = true ∧ ⟨some 7, some 10⟩ ∈ twoArrays.entries 2 ∧
      ∃ g', pushEphemerons (fun _ => true) (some 7) 3 twoArrays ⟨isMarkedTwo, [], []⟩ = some g' ∧
        10 ∉ g'.pushed :=
  ⟨by decide, by decide, by decide, _, rfl, by decide⟩

end Ephemerons

end Il2Cpp
