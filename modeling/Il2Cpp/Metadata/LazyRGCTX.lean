import Il2Cpp.LTS.Basic
import Il2Cpp.Metadata.RGCTX

/-!
# Lazy loading of runtime generic contexts

`ClassInlines::CheckRGCTX` tests an entry of the table of a generic method or class without a lock,
and fills it under the metadata lock if it is empty.  It does not test the entry again there, and
the class of an entry is stored before its size and field layout are set up.

* `step` : the transition system of the calls of any number of threads on the entries of any tables.
* `State.Inv` : the invariant.
* `checkRGCTX_safe_iff` : exactly the runs without the two races return entries that are what
  `InflateRGCTXLocked` stores, are set up and never change.
-/

namespace Il2Cpp

namespace LazyRGCTX

variable {O M H P K I : Type}

/-- The generic methods and classes `O` that have a table of entries. -/
structure Owners (O M H P K I : Type) where
  rg : RGCTXEnv M H P K I
  /-- `MetadataCache::GetRGCTXs` for its image and token. -/
  collection : O → List (RGCTXDefinition M H P I)
  context : O → GenericContext H P
  /-- The `genericRecursionDepth` of a class. -/
  genericRecursionDepth : O → Option ℕ
  /-- `Class::InitLocked` only allocates the table of a class then. -/
  allocated : ∀ o depth, genericRecursionDepth o = some depth →
    depth < rg.maximumRuntimeGenericDepth ∨ rg.lazyRGCTXInflation = true
  /-- `Class::IsGeneric`. -/
  isGeneric : K → Bool

/-- Where a call of `CheckRGCTX` is. -/
inductive PC (O : Type)
  | idle
  /-- before `data->rgctxDataDummy` is tested -/
  | check (e : O × ℕ)
  /-- before `InitRGCTXLocked` takes the lock -/
  | lock (e : O × ℕ)
  /-- in `InflateOneRGCTXLocked`, before the entry is stored -/
  | inflate (e : O × ℕ)
  /-- in `InitSizeAndFieldLayoutLocked` -/
  | initSize (e : O × ℕ)
  /-- before the lock is released -/
  | unlock (e : O × ℕ)
  /-- before the entry is returned -/
  | ret (e : O × ℕ)

/-- An entry as a call returned it. -/
structure Return (O H P K I : Type) where
  entry : O × ℕ
  value : Option (RGCTXData H P K I)
  /-- Its class, if it is one, had been set up. -/
  ready : Bool

/-- The tables of entries, the metadata and the calls. -/
structure State (O M H P K I : Type) where
  /-- `none` is NULL. -/
  entries : O × ℕ → Option (RGCTXData H P K I)
  metadata : Metadata M H P
  /-- The size and the field layout of a class are set up, or its initialization error is set. -/
  ready : K → Bool
  /-- The thread that has `g_MetadataLock`. -/
  owner : Option ℕ
  threads : ℕ → PC O
  returned : List (Return O H P K I)

def init (metadata : Metadata M H P) : State O M H P K I :=
  ⟨fun _ => none, metadata, fun _ => false, none, fun _ => .idle, []⟩

/-- The test of `Class::InitRGCTXLocked`, for classes. -/
def Owners.inflates (rt : Owners O M H P K I) (o : O) : Bool :=
  (rt.genericRecursionDepth o).all fun depth =>
    decide (depth < rt.rg.maximumRuntimeGenericDepth) || rt.rg.lazyRGCTXInflation

theorem Owners.inflates_eq_true (rt : Owners O M H P K I) (o : O) : rt.inflates o = true := by
  cases h : rt.genericRecursionDepth o with
  | none => simp [inflates, h]
  | some depth => simpa [inflates, h] using rt.allocated o depth h

/-- The thread has the lock while it is here. -/
def PC.holds : PC O → Bool
  | .inflate _ | .initSize _ | .unlock _ => true
  | _ => false

/-- The entry that the call has found filled, or has filled. -/
def PC.filled : PC O → Option (O × ℕ)
  | .initSize e | .unlock e | .ret e => some e
  | _ => none

/-- Where a call goes on after it has stored an entry. -/
def PC.afterStore (e : O × ℕ) : RGCTXDefinition M H P I → PC O
  | .klass _ => .initSize e
  | _ => .unlock e

theorem PC.holds_afterStore (e : O × ℕ) (d : RGCTXDefinition M H P I) :
    (PC.afterStore e d).holds = true := by
  cases d <;> rfl

theorem PC.filled_afterStore (e : O × ℕ) (d : RGCTXDefinition M H P I) :
    (PC.afterStore e d).filled = some e := by
  cases d <;> rfl

variable [DecidableEq M] [LinearOrder H] [LinearOrder P] [DecidableEq O] [DecidableEq K]
  {addr : H → UInt64} {token : M → UInt64}
  (env : InternEnv P addr token) (num : P → ℕ) (rt : Owners O M H P K I)

/-- What happens, on a thread. -/
inductive Label (O K : Type)
  | call (i : ℕ) (e : O × ℕ)
  | run (i : ℕ)
  /-- another function sets up a class, under the lock -/
  | setUp (klass : K)

namespace State

variable (s : State O M H P K I)

def goto (i : ℕ) (pc : PC O) : State O M H P K I :=
  { s with threads := Function.update s.threads i pc }

/-- The class of an entry, if it is one, is set up. -/
def classReady : Option (RGCTXData H P K I) → Bool
  | some (.klass k) => s.ready k
  | _ => true

/-- A step of a call on thread `i`. -/
def runPC (i : ℕ) : PC O → Option (State O M H P K I)
  | .idle => none
  | .check e => some (s.goto i (if (s.entries e).isSome then .ret e else .lock e))
  | .lock e =>
    if s.owner = none then
      some ({ s with owner := some i }.goto i (if rt.inflates e.1 then .inflate e else .unlock e))
    else none
  | .inflate e => do
    let definition ← (rt.collection e.1)[e.2]?
    let (value, metadata) ←
      inflateRGCTXDefinition env num rt.rg (rt.context e.1) s.metadata definition
    some ({ s with
      entries := Function.update s.entries e value
      metadata := metadata }.goto i (.afterStore e definition))
  | .initSize e =>
    match s.entries e with
    | some (.klass k) =>
      -- a class that is set up, or a generic type definition, is left alone
      some ({ s with
        ready := if rt.isGeneric k then s.ready else Function.update s.ready k true }.goto i
          (.unlock e))
    | _ => none
  | .unlock e => some ({ s with owner := none }.goto i (.ret e))
  | .ret e =>
    some ({ s with
      returned := ⟨e, s.entries e, s.classReady (s.entries e)⟩ :: s.returned }.goto i .idle)

end State

/-- A step. -/
def step (s : State O M H P K I) : Label O K → Option (State O M H P K I)
  | .call i e =>
    match s.threads i with
    | .idle =>
      if e.2 < (rt.collection e.1).length then some (s.goto i (.check e)) else none
    | _ => none
  | .run i => s.runPC env num rt i (s.threads i)
  | .setUp k =>
    if s.owner = none then some { s with ready := Function.update s.ready k true } else none

/-- The transition system of the calls. -/
def lts : LTS (State O M H P K I) (Label O K) := .ofFun (step env num rt)

/-! ### The invariant -/

/-- The metadata is as the runtime registers it. -/
structure Proper (tables : Tables M H P) : Prop where
  wf : tables.WellFormed
  context : ∀ o, (rt.context o).WellFormed tables
  definitions : ∀ o, ∀ d ∈ rt.collection o, d.Proper num (rt.context o) tables

/-- The value of an entry is what inflating its definition stores; the objects that were allocated
have numbers below `next`. -/
def Stored (next : ℕ) (e : O × ℕ) (v : Option (RGCTXData H P K I)) : Prop :=
  ∃ d, (rt.collection e.1)[e.2]? = some d ∧
    d.content num rt.rg (rt.context e.1) = some (v.map RGCTXData.content) ∧
    (v.bind RGCTXData.copy?).isSome = d.allocates num rt.rg (rt.context e.1) ∧
    ∀ n, v.bind RGCTXData.copy? = some n → n < next

/-- Filling an entry allocates an object. -/
def allocates (e : O × ℕ) : Bool :=
  (rt.collection e.1)[e.2]?.any fun d => d.allocates num rt.rg (rt.context e.1)

variable {env num rt}

omit [DecidableEq M] [DecidableEq O] [DecidableEq K] in
theorem Stored.mono {next next' : ℕ} {e : O × ℕ} {v : Option (RGCTXData H P K I)}
    (hle : next ≤ next') (h : Stored num rt next e v) : Stored num rt next' e v := by
  obtain ⟨d, hd, hc, hcopy, hn⟩ := h
  exact ⟨d, hd, hc, hcopy, fun n hv => Nat.lt_of_lt_of_le (hn n hv) hle⟩

omit [DecidableEq M] [DecidableEq O] [DecidableEq K] in
theorem Stored.eq {next next' : ℕ} {e : O × ℕ} {v w : Option (RGCTXData H P K I)}
    (h : Stored num rt next e v) (h' : Stored num rt next' e w)
    (ha : allocates num rt e = false) : v = w := by
  obtain ⟨d, hd, hc, hcopy, -⟩ := h
  obtain ⟨d', hd', hc', hcopy', -⟩ := h'
  obtain rfl : d = d' := Option.some_inj.1 (hd.symm.trans hd')
  rw [allocates, hd, Option.any_some] at ha
  rw [ha, Option.isSome_eq_false_iff, Option.isNone_iff_eq_none] at hcopy hcopy'
  have hvw := Option.some_inj.1 (hc.symm.trans hc')
  cases v with
  | none =>
    cases w with
    | none => rfl
    | some => cases hvw
  | some v =>
    cases w with
    | none => cases hvw
    | some w =>
      rw [RGCTXData.eq_of_content (Option.some_inj.1 hvw) (hcopy.trans hcopy'.symm)]

omit [DecidableEq O] [DecidableEq K] in
theorem Proper.inflate {s s' : Metadata M H P} (h : Proper num rt s.tables) {e : O × ℕ}
    {d : RGCTXDefinition M H P I} (hd : (rt.collection e.1)[e.2]? = some d)
    {v : Option (RGCTXData H P K I)}
    (hv : inflateRGCTXDefinition env num rt.rg (rt.context e.1) s d = some (v, s')) :
    Proper num rt s'.tables ∧ s.next ≤ s'.next ∧ Stored num rt s'.next e v ∧
      v.bind RGCTXData.copy? = if allocates num rt e then some s.next else none := by
  obtain ⟨c, hc, hst⟩ := inflateRGCTXDefinition_spec h.wf (h.context e.1)
    (h.definitions e.1 d (List.mem_of_getElem? hd)) hv
  have ha : allocates num rt e = d.allocates num rt.rg (rt.context e.1) := by
    rw [allocates, hd, Option.any_some]
  refine ⟨⟨hst.wf, fun o => (h.context o).mono hst.le,
    fun o d hd => (h.definitions o d hd).mono hst.le⟩, ?_, ⟨d, hd, ?_, ?_, fun n hn => ?_⟩, ?_⟩
  · rw [hst.next]
    exact Nat.le_add_right _ _
  · rw [hc, hst.content_eq]
  · rw [hst.copy]
    split <;> simp_all
  · rw [hst.copy] at hn
    split at hn
    · rename_i hd
      cases hn
      rw [hst.next, hd]
      exact Nat.lt_succ_self _
    · cases hn
  · rw [hst.copy, ha]

namespace State

variable (num rt) in
/-- **The invariant** of the entries and the calls. -/
structure Inv (s : State O M H P K I) : Prop where
  proper : Proper num rt s.metadata.tables
  owner : ∀ i, s.owner = some i ↔ (s.threads i).holds = true
  stored : ∀ e v, s.entries e = some v → Stored num rt s.metadata.next e (some v)
  filled : ∀ i e, (s.threads i).filled = some e →
    Stored num rt s.metadata.next e (s.entries e)
  /-- A class that is not set up yet is being set up. -/
  setUp : ∀ e k, s.entries e = some (.klass k) →
    s.ready k = true ∨ rt.isGeneric k = true ∨ ∃ i, s.threads i = .initSize e
  returned : ∀ r ∈ s.returned, Stored num rt s.metadata.next r.entry r.value ∧
    Stored num rt s.metadata.next r.entry (s.entries r.entry)

variable {s t : State O M H P K I} {i : ℕ}

omit [DecidableEq O] [DecidableEq K] in
theorem Inv.of_thread (hs : s.Inv num rt) {pc : PC O} (owner : Option ℕ) {ready : K → Bool}
    {returned : List (Return O H P K I)} (howner : owner = some i ↔ pc.holds = true)
    (hother : ∀ j, j ≠ i → (owner = some j ↔ s.owner = some j))
    (hfilled : ∀ e, pc.filled = some e → Stored num rt s.metadata.next e (s.entries e))
    (hready : ∀ k, s.ready k = true → ready k = true)
    (hsetUp : ∀ e k, s.threads i = .initSize e → s.entries e = some (.klass k) →
      ready k = true ∨ rt.isGeneric k = true)
    (hreturned : ∀ r ∈ returned, Stored num rt s.metadata.next r.entry r.value ∧
      Stored num rt s.metadata.next r.entry (s.entries r.entry)) :
    ({ s with
      ready := ready
      owner := owner
      threads := Function.update s.threads i pc
      returned := returned } : State O M H P K I).Inv num rt := by
  refine ⟨hs.proper, fun j => ?_, hs.stored, fun j e hj => ?_, fun e k hk => ?_, hreturned⟩
  · by_cases h : j = i
    · subst h
      simpa only [Function.update_self] using howner
    · simp only [Function.update_of_ne h]
      exact (hother j h).trans (hs.owner j)
  · by_cases h : j = i
    · subst h
      simp only [Function.update_self] at hj
      exact hfilled e hj
    · simp only [Function.update_of_ne h] at hj
      exact hs.filled j e hj
  · rcases hs.setUp e k hk with h | h | ⟨j, hj⟩
    · exact .inl (hready k h)
    · exact .inr (.inl h)
    · by_cases hji : j = i
      · subst hji
        rcases hsetUp e k hj hk with h | h
        · exact .inl h
        · exact .inr (.inl h)
      · exact .inr (.inr ⟨j, by simpa only [Function.update_of_ne hji] using hj⟩)

omit [DecidableEq K] in
theorem Inv.inflate (hs : s.Inv num rt) {e : O × ℕ} (hi : s.threads i = .inflate e)
    {d : RGCTXDefinition M H P I} (hd : (rt.collection e.1)[e.2]? = some d)
    {v : Option (RGCTXData H P K I)} {metadata : Metadata M H P}
    (hv : inflateRGCTXDefinition env num rt.rg (rt.context e.1) s.metadata d =
      some (v, metadata)) :
    (({ s with
      entries := Function.update s.entries e v
      metadata := metadata } : State O M H P K I).goto i (.afterStore e d)).Inv num rt := by
  obtain ⟨hproper, hle, hstored, -⟩ := hs.proper.inflate hd hv
  have hentry {e' : O × ℕ} (h : Stored num rt s.metadata.next e' (s.entries e')) :
      Stored num rt metadata.next e' (Function.update s.entries e v e') := by
    by_cases he : e' = e
    · subst he
      rwa [Function.update_self]
    · rw [Function.update_of_ne he]
      exact h.mono hle
  refine ⟨hproper, fun j => ?_, fun e' w hw => ?_, fun j e' hj => ?_, fun e' k hk => ?_,
    fun r hr => ?_⟩
  · by_cases h : j = i
    · subst h
      simp only [State.goto, Function.update_self, PC.holds_afterStore, hs.owner j, hi]
      exact iff_of_true rfl trivial
    · simp only [State.goto, Function.update_of_ne h]
      exact hs.owner j
  · by_cases he : e' = e
    · subst he
      simp only [State.goto, Function.update_self] at hw
      exact hw ▸ hstored
    · simp only [State.goto, Function.update_of_ne he] at hw
      exact (hs.stored e' w hw).mono hle
  · by_cases h : j = i
    · subst h
      simp only [State.goto, Function.update_self, PC.filled_afterStore, Option.some_inj] at hj
      subst hj
      simpa only [State.goto, Function.update_self] using hstored
    · simp only [State.goto, Function.update_of_ne h] at hj
      exact hentry (hs.filled j e' hj)
  · by_cases he : e' = e
    · subst he
      simp only [State.goto, Function.update_self] at hk
      subst hk
      obtain ⟨d', hd', hc, -, -⟩ := hstored
      obtain rfl : d = d' := Option.some_inj.1 (hd.symm.trans hd')
      obtain ⟨t, rfl⟩ := RGCTXDefinition.eq_klass_of_content hc
      exact .inr (.inr ⟨i, by simp only [State.goto, Function.update_self, PC.afterStore]⟩)
    · simp only [State.goto, Function.update_of_ne he] at hk
      rcases hs.setUp e' k hk with h | h | ⟨j, hj⟩
      · exact .inl h
      · exact .inr (.inl h)
      · have hji : j ≠ i := by
          rintro rfl
          rw [hi] at hj
          cases hj
        exact .inr (.inr ⟨j, by simpa only [State.goto, Function.update_of_ne hji] using hj⟩)
  · exact ⟨(hs.returned r hr).1.mono hle, hentry (hs.returned r hr).2⟩

theorem Inv.runPC (hs : s.Inv num rt) (h : s.runPC env num rt i (s.threads i) = some t) :
    t.Inv num rt := by
  have hready : ∀ k, s.ready k = true → s.ready k = true := fun _ hk => hk
  -- a thread that is not in `InitSizeAndFieldLayoutLocked`
  have hsetUp {pc : PC O} (hi : s.threads i = pc) (hpc : ∀ e, pc ≠ .initSize e) :
      ∀ e k, s.threads i = .initSize e → s.entries e = some (.klass k) →
        s.ready k = true ∨ rt.isGeneric k = true :=
    fun e _ h => absurd (hi.symm.trans h) (hpc e)
  cases hi : s.threads i with
  | idle =>
    rw [hi] at h
    cases h
  | check e =>
    rw [hi] at h
    cases h
    refine hs.of_thread s.owner ?_ (fun _ _ => Iff.rfl) (fun e' he => ?_) hready
      (hsetUp hi nofun) hs.returned
    · rw [hs.owner i, hi]
      split <;> rfl
    · split at he
      · rename_i hsome
        cases he
        obtain ⟨v, hv⟩ := Option.isSome_iff_exists.1 hsome
        rw [hv]
        exact hs.stored e v hv
      · cases he
  | lock e =>
    rw [hi] at h
    obtain ⟨ho, h⟩ := Option.ite_none_right_eq_some.1 h
    rw [if_pos (rt.inflates_eq_true e.1)] at h
    cases h
    refine hs.of_thread _ (by simp [PC.holds]) (fun j hj => ?_) nofun hready (hsetUp hi nofun)
      hs.returned
    have hij : i ≠ j := fun h => hj h.symm
    simp [ho, hij]
  | inflate e =>
    rw [hi] at h
    simp only [State.runPC, Option.bind_eq_bind, Option.bind_eq_some_iff, Prod.exists] at h
    obtain ⟨d, hd, v, metadata, hv, h⟩ := h
    cases h
    exact hs.inflate hi hd hv
  | initSize e =>
    rw [hi, State.runPC] at h
    split at h
    · rename_i k hk
      cases h
      refine hs.of_thread s.owner ?_ (fun _ _ => Iff.rfl) (fun e' he => ?_)
        (fun k' hk' => ?_) (fun e' k' he hk' => ?_) hs.returned
      · rw [hs.owner i, hi]
        rfl
      · cases he
        exact hs.filled i e (by rw [hi]; rfl)
      · split
        · exact hk'
        · change Function.update s.ready k true k' = true
          rw [Function.update_apply]
          split <;> simp [hk']
      · cases hi.symm.trans he
        rw [hk] at hk'
        cases hk'
        cases hg : rt.isGeneric k with
        | true => exact .inr rfl
        | false => exact .inl (by simp)
    · cases h
  | unlock e =>
    rw [hi] at h
    cases h
    have ho : s.owner = some i := (hs.owner i).2 (by rw [hi]; rfl)
    refine hs.of_thread _ (by simp [PC.holds]) (fun j hj => ?_) (fun e' he => ?_) hready
      (hsetUp hi nofun) hs.returned
    · have hij : i ≠ j := fun h => hj h.symm
      simp [ho, hij]
    · cases he
      exact hs.filled i e (by rw [hi]; rfl)
  | ret e =>
    rw [hi] at h
    cases h
    refine hs.of_thread s.owner ?_ (fun _ _ => Iff.rfl) nofun hready (hsetUp hi nofun)
      fun r hr => ?_
    · rw [hs.owner i, hi]
      rfl
    · rcases List.mem_cons.1 hr with rfl | hr
      · have hst := hs.filled i e (by rw [hi]; rfl)
        exact ⟨hst, hst⟩
      · exact hs.returned r hr

theorem Inv.step (hs : s.Inv num rt) {l : Label O K} (h : LazyRGCTX.step env num rt s l = some t) :
    t.Inv num rt := by
  cases l with
  | call i e =>
    rw [LazyRGCTX.step] at h
    split at h
    · rename_i hi
      obtain ⟨-, h⟩ := Option.ite_none_right_eq_some.1 h
      cases h
      refine hs.of_thread s.owner ?_ (fun _ _ => Iff.rfl) nofun (fun _ hk => hk)
        (fun e' _ he => ?_) hs.returned
      · rw [hs.owner i, hi]
        rfl
      · cases hi.symm.trans he
    · cases h
  | run i => exact hs.runPC h
  | setUp k =>
    obtain ⟨-, h⟩ := Option.ite_none_right_eq_some.1 h
    cases h
    refine ⟨hs.proper, hs.owner, hs.stored, hs.filled, fun e k' hk' => ?_, hs.returned⟩
    rcases hs.setUp e k' hk' with h | h
    · refine .inl ?_
      change Function.update s.ready k true k' = true
      rw [Function.update_apply]
      split <;> simp [h]
    · exact .inr h

end State

omit [DecidableEq O] [DecidableEq K] in
theorem inv_init {metadata : Metadata M H P} (h : Proper num rt metadata.tables) :
    (init metadata : State O M H P K I).Inv num rt where
  proper := h
  owner i := by simp [init, PC.holds]
  stored _ _ := nofun
  filled _ _ := nofun
  setUp _ _ := nofun
  returned _ := nofun

/-! ### Safety -/

variable (env num rt) in
/-- What the calls have returned is as it should be. -/
structure Safe (s : State O M H P K I) : Prop where
  /-- Each entry is what `InflateRGCTXLocked` stores, whenever it is called. -/
  agrees : ∀ r ∈ s.returned, ∀ (metadata metadata' : Metadata M H P)
    (values : List (Option (RGCTXData H P K I))), Proper num rt metadata.tables →
    inflateRGCTXLocked env num rt.rg (rt.context r.entry.1) metadata (rt.collection r.entry.1) =
      some (values, metadata') →
    ∃ v, values[r.entry.2]? = some v ∧
      v.map RGCTXData.content = r.value.map RGCTXData.content
  ready : ∀ r ∈ s.returned, r.ready = true
  unchanged : ∀ r ∈ s.returned, s.entries r.entry = r.value

variable (num rt) in
/-- The two races do not happen: a call does not store an entry that allocates after another call
has returned it, and no call returns the class of an entry between the store of the class and the
end of its set-up. -/
def RaceFree (s : State O M H P K I) : Label O K → Prop
  | .run i =>
    match s.threads i with
    | .inflate e => allocates num rt e = true → ∀ r ∈ s.returned, r.entry ≠ e
    | .ret e => ∀ k, s.entries e = some (.klass k) →
      (rt.isGeneric k = true → s.ready k = true) ∧
        ∀ j, s.threads j = .initSize e → s.ready k = true
    | _ => True
  | _ => True

omit [DecidableEq O] [DecidableEq K] in
theorem State.Inv.agrees {s : State O M H P K I} (hs : s.Inv num rt) {r : Return O H P K I}
    (hr : r ∈ s.returned) {metadata metadata' : Metadata M H P}
    {values : List (Option (RGCTXData H P K I))} (hp : Proper num rt metadata.tables)
    (h : inflateRGCTXLocked env num rt.rg (rt.context r.entry.1) metadata
      (rt.collection r.entry.1) = some (values, metadata')) :
    ∃ v, values[r.entry.2]? = some v ∧
      v.map RGCTXData.content = r.value.map RGCTXData.content := by
  obtain ⟨d, hd, hc, -, -⟩ := (hs.returned r hr).1
  obtain ⟨v, hv, hcv⟩ := inflateRGCTXLocked_spec hp.wf (hp.context r.entry.1)
    (hp.definitions r.entry.1) h hd
  exact ⟨v, hv, Option.some_inj.1 (hcv.symm.trans hc)⟩

omit [DecidableEq K] in
theorem safe_inflate_iff {s : State O M H P K I} (hs : s.Inv num rt) {e : O × ℕ}
    {d : RGCTXDefinition M H P I} (hd : (rt.collection e.1)[e.2]? = some d)
    {v : Option (RGCTXData H P K I)} {metadata : Metadata M H P}
    (hv : inflateRGCTXDefinition env num rt.rg (rt.context e.1) s.metadata d =
      some (v, metadata)) :
    (∀ r ∈ s.returned, Function.update s.entries e v r.entry = r.value) ↔
      (∀ r ∈ s.returned, s.entries r.entry = r.value) ∧
        (allocates num rt e = true → ∀ r ∈ s.returned, r.entry ≠ e) := by
  obtain ⟨-, -, hstored, hcopy⟩ := hs.proper.inflate hd hv
  constructor
  · intro h
    have hne : allocates num rt e = true → ∀ r ∈ s.returned, r.entry ≠ e := by
      rintro ha r hr rfl
      obtain ⟨⟨_, _, _, _, hlt⟩, -⟩ := hs.returned r hr
      have hvr := h r hr
      rw [Function.update_self] at hvr
      rw [if_pos ha, hvr] at hcopy
      exact Nat.lt_irrefl _ (hlt _ hcopy)
    refine ⟨fun r hr => ?_, hne⟩
    by_cases he : r.entry = e
    · cases ha : allocates num rt e with
      | true => exact absurd he (hne ha r hr)
      | false =>
        rw [← he] at ha
        exact ((hs.returned r hr).2.eq (hs.returned r hr).1 ha)
    · have hvr := h r hr
      rwa [Function.update_of_ne he] at hvr
  · rintro ⟨h, hne⟩ r hr
    by_cases he : r.entry = e
    · subst he
      rw [Function.update_self]
      cases ha : allocates num rt r.entry with
      | true => exact absurd rfl (hne ha r hr)
      | false => exact hstored.eq (hs.returned r hr).1 ha
    · rw [Function.update_of_ne he]
      exact h r hr

omit [DecidableEq O] [DecidableEq K] in
theorem safe_iff {s : State O M H P K I} (hs : s.Inv num rt) :
    Safe env num rt s ↔
      (∀ r ∈ s.returned, r.ready = true) ∧ ∀ r ∈ s.returned, s.entries r.entry = r.value :=
  ⟨fun h => ⟨h.ready, h.unchanged⟩,
    fun h => ⟨fun _ hr _ _ _ hp hv => hs.agrees hr hp hv, h.1, h.2⟩⟩

omit [DecidableEq O] [DecidableEq K] in
theorem State.Inv.classReady_iff {s : State O M H P K I} (hs : s.Inv num rt) (e : O × ℕ) :
    s.classReady (s.entries e) = true ↔ ∀ k, s.entries e = some (.klass k) →
      (rt.isGeneric k = true → s.ready k = true) ∧
        ∀ j, s.threads j = .initSize e → s.ready k = true := by
  constructor
  · intro h k hk
    rw [hk] at h
    exact ⟨fun _ => h, fun _ _ => h⟩
  · intro h
    cases hv : s.entries e with
    | none => rfl
    | some v =>
      cases v with
      | type | method | tooDeeplyNested => rfl
      | klass k =>
        obtain ⟨hgeneric, hthread⟩ := h k hv
        rcases hs.setUp e k hv with hk | hk | ⟨j, hj⟩
        · exact hk
        · exact hgeneric hk
        · exact hthread j hj

theorem safe_step_iff {s t : State O M H P K I} (hs : s.Inv num rt) {l : Label O K}
    (h : step env num rt s l = some t) :
    Safe env num rt t ↔ Safe env num rt s ∧ RaceFree num rt s l := by
  have ht : t.Inv num rt := hs.step h
  rw [safe_iff ht, safe_iff hs]
  cases l with
  | call i e =>
    rw [step] at h
    split at h
    · obtain ⟨-, h⟩ := Option.ite_none_right_eq_some.1 h
      cases h
      exact (and_iff_left trivial).symm
    · cases h
  | setUp k =>
    obtain ⟨-, h⟩ := Option.ite_none_right_eq_some.1 h
    cases h
    exact (and_iff_left trivial).symm
  | run i =>
    rw [step] at h
    rw [RaceFree]
    cases hi : s.threads i with
    | idle =>
      rw [hi] at h
      cases h
    | check e | unlock e =>
      rw [hi] at h
      cases h
      exact (and_iff_left trivial).symm
    | lock e =>
      rw [hi] at h
      obtain ⟨-, h⟩ := Option.ite_none_right_eq_some.1 h
      cases h
      exact (and_iff_left trivial).symm
    | initSize e =>
      rw [hi, State.runPC] at h
      split at h
      · cases h
        exact (and_iff_left trivial).symm
      · cases h
    | inflate e =>
      rw [hi] at h
      simp only [State.runPC, Option.bind_eq_bind, Option.bind_eq_some_iff, Prod.exists] at h
      obtain ⟨d, hd, v, metadata, hv, h⟩ := h
      cases h
      simp only [State.goto, safe_inflate_iff hs hd hv, and_assoc]
    | ret e =>
      rw [hi] at h
      cases h
      simp only [State.goto, List.forall_mem_cons, true_and, hs.classReady_iff e]
      tauto

/-- **Exactly the runs without the two races** return entries that are what `InflateRGCTXLocked`
stores, whose classes are set up, and that never change. -/
theorem checkRGCTX_safe_iff {metadata : Metadata M H P} (h : Proper num rt metadata.tables)
    (s : State O M H P K I) :
    (lts env num rt).ReachWith (RaceFree num rt) (init metadata) s ↔
      (lts env num rt).Reachable (init metadata) s ∧ Safe env num rt s := by
  have hinv : ∀ s, (lts env num rt).Reachable (init metadata) s → s.Inv num rt := fun s hr =>
    hr.invariant (inv_init h) fun _ _ _ hs _ ht => State.Inv.step hs ht
  refine LTS.reachWith_iff ((safe_iff (inv_init h)).2 ⟨nofun, nofun⟩) fun s l t hr ht => ?_
  exact safe_step_iff (hinv s hr) ht

/-- The tables of one generic class of `int`, with the entries `T[]`, as a class and as a type. -/
def intArrays : Owners Unit ℕ ℕ ℕ ℕ ℕ where
  rg := ⟨fun _ => 0, fun _ => none, fun _ => false, fun _ _ => none, true, 7⟩
  collection _ := [.klass (.szarray {} (.var {} 0)), .type (.szarray {} (.var {} 0))]
  context _ := ⟨some ⟨0, [.simple {} .i4]⟩, none⟩
  genericRecursionDepth _ := some 1
  allocated _ _ _ := .inr rfl
  isGeneric _ := false

/-- The metadata before anything is inflated. -/
def noTables : Metadata ℕ ℕ ℕ := ⟨.init, 0⟩

theorem proper_intArrays : Proper id intArrays noTables.tables := by
  have harg : ∀ a, (intArrays.context ()).Arg a → a = .simple {} .i4 := by
    rintro a (⟨_, ⟨⟩, ha⟩ | ⟨_, ⟨⟩, _⟩)
    exact List.mem_singleton.1 ha
  refine ⟨Tables.init_wellFormed, fun _ => ⟨fun a ha => ?_, fun a ha => ?_⟩, fun _ d hd => ?_⟩
  · cases harg a ha
    trivial
  · cases harg a ha
    trivial
  · rcases List.mem_cons.1 hd with rfl | hd
    · exact ⟨trivial, rfl⟩
    · cases List.mem_singleton.1 hd
      exact ⟨trivial, rfl⟩

/-- Steps that are not races for a reason that can be evaluated. -/
def quiet (s : State Unit ℕ ℕ ℕ ℕ ℕ) : Label Unit ℕ → Bool
  | .run i =>
    match s.threads i with
    | .inflate e => s.returned.all fun r => decide (r.entry ≠ e)
    | .ret e => s.classReady (s.entries e)
    | _ => true
  | _ => true

theorem raceFree_of_quiet {s : State Unit ℕ ℕ ℕ ℕ ℕ} {l : Label Unit ℕ}
    (h : quiet s l = true) : RaceFree id intArrays s l := by
  cases l with
  | call | setUp => trivial
  | run i =>
    rw [quiet] at h
    rw [RaceFree]
    cases hi : s.threads i with
    | idle | check | lock | initSize | unlock => trivial
    | inflate e =>
      rw [hi] at h
      intro _ r hr
      simpa using List.all_eq_true.1 h r hr
    | ret e =>
      rw [hi] at h
      intro k hk
      simp only [hk, State.classReady] at h
      exact ⟨fun _ => h, fun _ _ => h⟩

/-- One call after the other. -/
theorem checkRGCTX_safe_intArrays : ∃ s : State Unit ℕ ℕ ℕ ℕ ℕ,
    (lts .byHash id intArrays).ReachWith (RaceFree id intArrays) (init noTables) s ∧
      (s.returned.map fun r => (r.entry.2, r.ready)) = [(1, true), (0, true), (0, true)] ∧
        Safe .byHash id intArrays s := by
  obtain ⟨s, hs, hr⟩ := LTS.exists_reachWith (f := step .byHash id intArrays)
    (G := fun s l => quiet s l = true) (i := init noTables)
    (.call 0 ((), 0) :: List.replicate 6 (.run 0) ++
      .call 1 ((), 0) :: List.replicate 2 (.run 1) ++
      .call 1 ((), 1) :: List.replicate 5 (.run 1))
    (fun s => (s.returned.map fun r => (r.entry.2, r.ready)) = [(1, true), (0, true), (0, true)])
    (by decide)
  have hs := hs.mono fun _ _ h => raceFree_of_quiet h
  exact ⟨s, hs, hr, ((checkRGCTX_safe_iff proper_intArrays s).1 hs).2⟩

/-- A class is returned before it is set up, and a type that was returned is replaced by a copy. -/
theorem checkRGCTX_races :
    (¬ ∀ s : State Unit ℕ ℕ ℕ ℕ ℕ, (lts .byHash id intArrays).Reachable (init noTables) s →
      ∀ r ∈ s.returned, r.ready = true) ∧
    ¬ ∀ s : State Unit ℕ ℕ ℕ ℕ ℕ, (lts .byHash id intArrays).Reachable (init noTables) s →
      ∀ r ∈ s.returned, s.entries r.entry = r.value := by
  constructor
  · intro h
    obtain ⟨s, hs, hr⟩ := LTS.exists_reachWith (f := step .byHash id intArrays)
      (G := fun _ _ => True) (i := init noTables)
      [.call 0 ((), 0), .run 0, .run 0, .run 0, .call 1 ((), 0), .run 1, .run 1]
      (fun s => (s.returned.map fun r => r.ready) = [false]) (by decide)
    obtain ⟨r, hmem, hr⟩ := List.exists_of_mem_map (hr ▸ List.mem_singleton_self false :
      false ∈ s.returned.map fun r => r.ready)
    rw [h s hs r hmem] at hr
    cases hr
  · intro h
    obtain ⟨s, hs, hr, he⟩ := LTS.exists_reachWith (f := step .byHash id intArrays)
      (G := fun _ _ => True) (i := init noTables)
      [.call 0 ((), 1), .call 1 ((), 1), .run 0, .run 1, .run 0, .run 0, .run 0, .run 0, .run 1,
        .run 1]
      (fun s =>
        (s.returned.map fun r => (r.entry.2, r.value.bind RGCTXData.copy?)) = [(1, some 0)] ∧
          (s.entries ((), 1)).bind RGCTXData.copy? = some 1) (by decide)
    obtain ⟨r, hmem, hr⟩ := List.exists_of_mem_map (hr ▸ List.mem_singleton_self (1, some 0) :
      (1, some 0) ∈ s.returned.map fun r => (r.entry.2, r.value.bind RGCTXData.copy?))
    obtain ⟨⟨⟨⟩, index⟩, value, ready⟩ := r
    obtain ⟨rfl, hv⟩ := Prod.mk.inj hr
    rw [← h s hs _ hmem, he] at hv
    cases hv

end LazyRGCTX

end Il2Cpp
