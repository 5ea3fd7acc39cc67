import Il2Cpp.GC.AppendOnlyGCHashMap
import Il2Cpp.LTS.Basic

/-!
# Interned strings

`String::Intern` and `String::IsInterned`, called by any number of threads.  A step is a read or a
compare-exchange of `s_InternedStringMap`, or an operation of the map under its lock.  The characters
of a string do not change, and the map keeps its strings alive.

* `step` : the calls and the steps of the threads, with the results that have been returned.
* `Inv` : the map has exactly the strings that `Intern` has returned, under their characters.
* `internedStrings_canonical` : what this means for the results of every run.
-/

namespace Il2Cpp

namespace StringIntern

open GC

variable {S T : Type} [DecidableEq T]

/-- What a call has returned. -/
inductive Returned (S : Type)
  | intern (str result : S)
  | isInterned (str : S) (result : Option S)
  deriving DecidableEq

/-- Where a thread is. -/
inductive Place (S : Type)
  | idle
  /-- `Intern`, before the test of `s_InternedStringMap` -/
  | intern (str : S)
  /-- with a new map, before the compare-exchange -/
  | creating (str : S)
  /-- before `TryGetValue` -/
  | lookingUp (str : S)
  /-- before `GetOrAdd` -/
  | adding (str : S)
  /-- `IsInterned`, before the test of `s_InternedStringMap` -/
  | isInterned (str : S)
  /-- before `TryGetValue` -/
  | checking (str : S)

/-- The strings `S` and the threads `T`. -/
structure State (S T : Type) where
  /-- `s_InternedStringMap`. -/
  internedStringMap : Option (AppendOnlyGCHashMap (List UInt16) S)
  threads : T → Place S
  /-- What the calls have returned, the last one first. -/
  returned : List (Returned S)

/-- What a thread does. -/
inductive Action (S T : Type)
  | callIntern (thread : T) (str : S)
  | callIsInterned (thread : T) (str : S)
  | run (thread : T)

omit [DecidableEq T] in
variable (S T) in
def init : State S T := ⟨none, fun _ => .idle, []⟩

namespace State

/-- A thread goes on. -/
def goto (s : State S T) (thread : T) (place : Place S) : State S T :=
  { s with threads := Function.update s.threads thread place }

/-- `CompareExchangePointer` of a new map; it is deleted if there is one. -/
def create (s : State S T) : State S T :=
  { s with internedStringMap := s.internedStringMap.or (some (.empty _ _)) }

/-- A call returns. -/
def finish (s : State S T) (thread : T) (r : Returned S) : State S T :=
  { s with threads := Function.update s.threads thread .idle, returned := r :: s.returned }

end State

/-- A step of a thread; `chars` are the characters of a string. -/
def run (chars : S → List UInt16) (s : State S T) (thread : T) : Option (State S T) :=
  match s.threads thread with
  | .idle => none
  | .intern str =>
    if s.internedStringMap.isNone then some (s.goto thread (.creating str))
    else some (s.goto thread (.lookingUp str))
  | .creating str => some (s.create.goto thread (.lookingUp str))
  | .lookingUp str => do
    let map ← s.internedStringMap
    match ← map.tryGetValue (chars str) with
    | some value => return s.finish thread (.intern str value)
    | none => return s.goto thread (.adding str)
  | .adding str => do
    let map ← s.internedStringMap
    let (value, map) ← map.getOrAdd (chars str) str
    return { s with internedStringMap := some map }.finish thread (.intern str value)
  | .isInterned str =>
    -- if this is NULL, it means we have no interned strings
    if s.internedStringMap.isNone then some (s.finish thread (.isInterned str none))
    else some (s.goto thread (.checking str))
  | .checking str => do
    let map ← s.internedStringMap
    let value ← map.tryGetValue (chars str)
    return s.finish thread (.isInterned str value)

def step (chars : S → List UInt16) (s : State S T) : Action S T → Option (State S T)
  | .callIntern thread str =>
    match s.threads thread with
    | .idle => some (s.goto thread (.intern str))
    | _ => none
  | .callIsInterned thread str =>
    match s.threads thread with
    | .idle => some (s.goto thread (.isInterned str))
    | _ => none
  | .run thread => run chars s thread

def lts (chars : S → List UInt16) : LTS (State S T) (Action S T) := .ofFun (step chars)

/-! ### The invariant -/

/-- The string that is interned for some characters. -/
def State.interned (s : State S T) (k : List UInt16) : Option S :=
  s.internedStringMap.bind fun map => map.lookup k

/-- The thread is going to use the map. -/
def Place.NeedsMap : Place S → Prop
  | .lookingUp _ | .adding _ | .checking _ => True
  | .idle | .intern _ | .creating _ | .isInterned _ => False

/-- What the results of `IsInterned` are, by those of `Intern` before. -/
def Checked (chars : S → List UInt16) (returned : List (Returned S)) : Prop :=
  ∀ later earlier str result, returned = later ++ .isInterned str result :: earlier →
    ∀ v, result = some v ↔ ∃ b, .intern b v ∈ earlier ∧ chars b = chars str

/-- **The invariant.** -/
structure Inv (chars : S → List UInt16) (s : State S T) : Prop where
  wf : ∀ map, s.internedStringMap = some map → map.Wf
  created : ∀ thread, (s.threads thread).NeedsMap → s.internedStringMap.isSome
  interned_iff : ∀ k v, s.interned k = some v ↔ ∃ b, .intern b v ∈ s.returned ∧ chars b = k
  chars_eq : ∀ k v, s.interned k = some v → chars v = k
  checked : Checked chars s.returned

variable {chars : S → List UInt16} {s s' : State S T}

omit [DecidableEq T] in
theorem Inv.init : Inv chars (init S T) where
  wf _ h := by cases h
  created _ h := h.elim
  interned_iff k v := by simp [State.interned, StringIntern.init]
  chars_eq k v h := by cases h
  checked later earlier str result h := by simp [StringIntern.init] at h

theorem created_update (h : ∀ thread, (s.threads thread).NeedsMap → s.internedStringMap.isSome)
    {place : Place S} {map : Option (AppendOnlyGCHashMap (List UInt16) S)}
    (hmap : s.internedStringMap.isSome → map.isSome) (hplace : place.NeedsMap → map.isSome)
    (thread t : T) (ht : (Function.update s.threads thread place t).NeedsMap) : map.isSome := by
  by_cases heq : t = thread
  · subst heq
    rw [Function.update_self] at ht
    exact hplace ht
  · rw [Function.update_of_ne heq] at ht
    exact hmap (h t ht)

theorem Inv.goto (h : Inv chars s) (thread : T) {place : Place S}
    (hplace : place.NeedsMap → s.internedStringMap.isSome) : Inv chars (s.goto thread place) where
  wf := h.wf
  created t ht := created_update h.created id hplace thread t ht
  interned_iff := h.interned_iff
  chars_eq := h.chars_eq
  checked := h.checked

omit [DecidableEq T] in
@[simp] theorem interned_create (k : List UInt16) : s.create.interned k = s.interned k := by
  rw [State.interned, State.interned, State.create]
  cases s.internedStringMap with
  | none => exact AppendOnlyGCHashMap.lookup_empty k
  | some map => rfl

omit [DecidableEq T] in
theorem isSome_create : s.create.internedStringMap.isSome := by simp [State.create]

omit [DecidableEq T] in
theorem Inv.create (h : Inv chars s) : Inv chars s.create where
  wf map hmap := by
    rw [State.create] at hmap
    cases hs : s.internedStringMap with
    | none =>
      rw [hs] at hmap
      cases hmap
      exact AppendOnlyGCHashMap.wf_empty
    | some map' =>
      rw [hs] at hmap
      cases hmap
      exact h.wf map hs
  created _ _ := isSome_create
  interned_iff k v := by
    rw [interned_create]
    exact h.interned_iff k v
  chars_eq k v hv := h.chars_eq k v (by rwa [interned_create] at hv)
  checked := h.checked

theorem Checked.cons {returned : List (Returned S)} (h : Checked chars returned) {r : Returned S}
    (hr : ∀ str result, r = .isInterned str result → ∀ v, result = some v ↔
      ∃ b, .intern b v ∈ returned ∧ chars b = chars str) : Checked chars (r :: returned) := by
  intro later earlier str result heq
  cases later with
  | nil =>
    obtain ⟨rfl, rfl⟩ := List.cons_eq_cons.1 heq
    exact hr str result rfl
  | cons r' later =>
    obtain ⟨-, htail⟩ := List.cons_eq_cons.1 heq
    exact h later earlier str result htail

/-- **`Intern` returns** the string that was interned, or its own, which is interned from now on. -/
theorem Inv.finishIntern (h : Inv chars s) (thread : T) {str v : S}
    {map : AppendOnlyGCHashMap (List UInt16) S} (hwf : map.Wf)
    (hv : v = (s.interned (chars str)).getD str)
    (hmap : ∀ k, map.lookup k = if k = chars str then some v else s.interned k) :
    Inv chars ({ s with internedStringMap := some map }.finish thread (.intern str v)) := by
  have hchars : chars v = chars str := by
    cases hold : s.interned (chars str) with
    | none => rw [hv, hold, Option.getD_none]
    | some w =>
      rw [hv, hold, Option.getD_some]
      exact h.chars_eq _ w hold
  have hinterned (k : List UInt16) :
      ({ s with internedStringMap := some map }.finish thread (.intern str v)).interned k =
        map.lookup k := rfl
  refine ⟨fun map' heq => ?_, fun t _ => rfl, fun k w => ?_, fun k w hw => ?_,
    h.checked.cons (by simp)⟩
  · cases heq
    exact hwf
  · rw [hinterned, hmap]
    by_cases hk : k = chars str
    · rw [if_pos hk]
      constructor
      · rintro ⟨⟩
        exact ⟨str, List.mem_cons_self, hk.symm⟩
      · rintro ⟨b, hb, hbk⟩
        rcases List.mem_cons.1 hb with heq | hb
        · cases heq
          rfl
        · -- the strings of an earlier call were interned, so this is the one that is found
          rw [hv, ← hk, (h.interned_iff k w).2 ⟨b, hb, hbk⟩, Option.getD_some]
    · rw [if_neg hk, h.interned_iff]
      constructor
      · rintro ⟨b, hb, hbk⟩
        exact ⟨b, List.mem_cons_of_mem _ hb, hbk⟩
      · rintro ⟨b, hb, hbk⟩
        rcases List.mem_cons.1 hb with heq | hb
        · cases heq
          exact absurd hbk.symm hk
        · exact ⟨b, hb, hbk⟩
  · rw [hinterned, hmap] at hw
    split_ifs at hw with hk
    · cases hw
      rw [hchars, hk]
    · exact h.chars_eq k w hw

/-- **`IsInterned` returns** what is interned. -/
theorem Inv.finishIsInterned (h : Inv chars s) (thread : T) {str : S} {result : Option S}
    (hresult : result = s.interned (chars str)) :
    Inv chars (s.finish thread (.isInterned str result)) where
  wf := h.wf
  created t ht := created_update h.created id False.elim thread t ht
  interned_iff k v := by
    refine (h.interned_iff k v).trans ⟨?_, ?_⟩
    · rintro ⟨b, hb, hbk⟩
      exact ⟨b, List.mem_cons_of_mem _ hb, hbk⟩
    · rintro ⟨b, hb, hbk⟩
      exact ⟨b, by simpa [State.finish] using hb, hbk⟩
  chars_eq := h.chars_eq
  checked := h.checked.cons fun str' result' heq v => by
    cases heq
    rw [hresult]
    exact h.interned_iff (chars str) v

omit [DecidableEq T] in
theorem Inv.exists_map (h : Inv chars s) (thread : T) (hneeds : (s.threads thread).NeedsMap) :
    ∃ map, s.internedStringMap = some map ∧ map.Wf ∧ ∀ k, s.interned k = map.lookup k := by
  obtain ⟨map, hmap⟩ := Option.isSome_iff_exists.1 (h.created thread hneeds)
  refine ⟨map, hmap, h.wf map hmap, fun k => ?_⟩
  rw [State.interned, hmap, Option.bind_some]

/-- **A thread that is in a call** can go on, and keeps the invariant: the map is there where it is
needed, and its operations stay in its array. -/
theorem Inv.run (h : Inv chars s) {thread : T} (hthread : s.threads thread ≠ .idle) :
    ∃ s', run chars s thread = some s' ∧ Inv chars s' := by
  rw [StringIntern.run]
  cases hplace : s.threads thread with
  | idle => exact absurd hplace hthread
  | intern str =>
    cases hmap : s.internedStringMap with
    | none => exact ⟨_, rfl, h.goto thread False.elim⟩
    | some map => exact ⟨_, rfl, h.goto thread fun _ => by simp [hmap]⟩
  | creating str => exact ⟨_, rfl, h.create.goto thread fun _ => isSome_create⟩
  | lookingUp str =>
    obtain ⟨map, hmap, hwf, hlookup⟩ := h.exists_map thread (by rw [hplace]; trivial)
    simp only [hmap, Option.bind_eq_bind, Option.bind_some,
      AppendOnlyGCHashMap.tryGetValue_spec hwf]
    cases hfound : map.lookup (chars str) with
    | none => exact ⟨_, rfl, h.goto thread fun _ => by simp [hmap]⟩
    | some value =>
      have hs : { s with internedStringMap := some map } = s := by rw [← hmap]
      refine ⟨_, rfl, ?_⟩
      rw [← hs]
      refine h.finishIntern thread hwf (by rw [hlookup, hfound]; rfl) fun k => ?_
      rw [hlookup]
      split_ifs with hk
      · rw [hk, hfound]
      · rfl
  | adding str =>
    obtain ⟨map, hmap, hwf, hlookup⟩ := h.exists_map thread (by rw [hplace]; trivial)
    obtain ⟨value, map', hadd, hwf', hvalue, hmap'⟩ :=
      AppendOnlyGCHashMap.getOrAdd_spec hwf (chars str) str
    simp only [hmap, Option.bind_eq_bind, Option.bind_some, hadd]
    refine ⟨_, rfl, h.finishIntern thread hwf' (by rw [hlookup, hvalue]) fun k => ?_⟩
    rw [hmap', hlookup]
  | isInterned str =>
    cases hmap : s.internedStringMap with
    | none =>
      refine ⟨_, rfl, h.finishIsInterned thread ?_⟩
      rw [State.interned, hmap, Option.bind_none]
    | some map => exact ⟨_, rfl, h.goto thread fun _ => by simp [hmap]⟩
  | checking str =>
    obtain ⟨map, hmap, hwf, hlookup⟩ := h.exists_map thread (by rw [hplace]; trivial)
    simp only [hmap, Option.bind_eq_bind, Option.bind_some,
      AppendOnlyGCHashMap.tryGetValue_spec hwf]
    exact ⟨_, rfl, h.finishIsInterned thread (hlookup (chars str)).symm⟩

/-- **A step** keeps the invariant. -/
theorem Inv.step (h : Inv chars s) {a : Action S T} (hstep : step chars s a = some s') :
    Inv chars s' := by
  cases a with
  | callIntern thread str =>
    rw [StringIntern.step] at hstep
    split at hstep
    · cases hstep
      exact h.goto thread False.elim
    · cases hstep
  | callIsInterned thread str =>
    rw [StringIntern.step] at hstep
    split at hstep
    · cases hstep
      exact h.goto thread False.elim
    · cases hstep
  | run thread =>
    rw [StringIntern.step] at hstep
    have hthread : s.threads thread ≠ .idle := by
      intro hidle
      rw [StringIntern.run, hidle] at hstep
      cases hstep
    obtain ⟨s₁, hrun, hinv⟩ := h.run hthread
    rw [hrun] at hstep
    cases hstep
    exact hinv

theorem inv_reachable (h : (lts chars).Reachable (init S T) s) : Inv chars s :=
  LTS.ReachWith.invariant h Inv.init fun _ _ _ hs _ hstep => hs.step hstep

omit [DecidableEq T] in
theorem Inv.interned_of_returned (h : Inv chars s) {a r : S} (hr : .intern a r ∈ s.returned) :
    s.interned (chars a) = some r := (h.interned_iff (chars a) r).2 ⟨a, hr, rfl⟩

/-- **Interning is canonical.**  In every run, two results of `Intern` are the same string if and only
if the arguments have the same characters; a result has the characters of its argument; `IsInterned`
has returned the result of the earlier calls of `Intern` with these characters, and `NULL` if there
was none; and each thread that is in a call can go on. -/
theorem internedStrings_canonical (chars : S → List UInt16) {s : State S T}
    (h : (lts chars).Reachable (init S T) s) :
    (∀ a b r r', .intern a r ∈ s.returned → .intern b r' ∈ s.returned →
      (r = r' ↔ chars a = chars b)) ∧
    (∀ a r, .intern a r ∈ s.returned → chars r = chars a) ∧
    (∀ later earlier a result, s.returned = later ++ .isInterned a result :: earlier →
      (∀ b r, .intern b r ∈ earlier → chars b = chars a → result = some r) ∧
      ((∀ b r, .intern b r ∈ earlier → chars b ≠ chars a) → result = none)) ∧
    ∀ thread, s.threads thread ≠ .idle → ∃ s', step chars s (.run thread) = some s' := by
  have hinv := inv_reachable h
  refine ⟨fun a b r r' ha hb => ?_, fun a r ha => ?_,
    fun later earlier a result heq => ⟨fun b r hb hchars => ?_, fun hnone => ?_⟩,
    fun thread hthread => ?_⟩
  · have hr := hinv.interned_of_returned ha
    have hr' := hinv.interned_of_returned hb
    constructor
    · rintro rfl
      exact (hinv.chars_eq _ _ hr).symm.trans (hinv.chars_eq _ _ hr')
    · intro hchars
      rw [hchars, hr'] at hr
      exact (Option.some.inj hr).symm
  · exact hinv.chars_eq _ _ (hinv.interned_of_returned ha)
  · exact (hinv.checked later earlier a result heq r).2 ⟨b, hb, hchars⟩
  · cases result with
    | none => rfl
    | some v =>
      obtain ⟨b, hb, hchars⟩ := (hinv.checked later earlier a (some v) heq v).1 rfl
      exact absurd hchars (hnone b v hb)
  · obtain ⟨s', hs', -⟩ := hinv.run hthread
    exact ⟨s', hs'⟩

/-- The strings `0` and `1` have the same characters. -/
def equalChars (str : ℕ) : List UInt16 := if str ≤ 1 then [97] else []

/-- Two threads intern equal strings, and both find none at first. -/
theorem internedStrings_canonical_race : ∃ s : State ℕ Bool,
    (lts equalChars).Reachable (init ℕ Bool) s ∧
      s.returned = [.isInterned 0 (some 1), .intern 0 1, .intern 1 1] ∧
      (1 = 1 ↔ equalChars 0 = equalChars 1) := by
  obtain ⟨s, hs, hreturned⟩ := LTS.exists_reachWith (f := step equalChars)
    (G := fun _ _ => True) (i := init ℕ Bool)
    [.callIntern false 0, .callIntern true 1, .run false, .run true, .run true, .run false,
     .run false, .run true, .run true, .run false, .callIsInterned true 0, .run true, .run true]
    (fun s : State ℕ Bool =>
      s.returned = [.isInterned 0 (some 1), .intern 0 1, .intern 1 1]) (by decide)
  refine ⟨s, hs, hreturned, (internedStrings_canonical equalChars hs).1 0 1 1 1 ?_ ?_⟩
  · simp [hreturned]
  · simp [hreturned]

end StringIntern

end Il2Cpp
