import Mathlib

/-!
# The interfaces that an RCW has been queried for

An RCW keeps the interfaces of its COM object that it has been queried for: the first 8 in the RCW
itself, and the others in an array that is to grow.

* `Caches` : the two caches, with `queryInterfaceCached` and `cacheQueriedInterface`.
* `run` : a sequence of calls, which ends at a write outside of a cache.
* `IsMap` : the calls behave as on a map, and write inside of the caches.
* `isMap_iff` : this is so for up to 8 interface ids.  The capacity of the array is doubled from 0,
  so that the ninth is written outside of it.
-/

namespace Il2Cpp

namespace QueriedInterfaces

variable {I P : Type*} [DecidableEq I]

/-! ### The caches -/

/-- `QICache`; interface ids are compared by their addresses. -/
structure QICache (I P : Type*) where
  iid : I
  qiResult : P

/-- `IL2CPP_ARRAY_SIZE(rcw->qiShortCache)`. -/
def shortCapacity : ℕ := 8

/-- The fields of an RCW. -/
structure Caches (I P : Type*) where
  /-- The first `qiShortCacheSize` entries of `qiShortCache`. -/
  short : List (QICache I P)
  /-- The first `qiLongCacheSize` entries of `qiLongCache`. -/
  long : List (QICache I P)
  qiLongCacheCapacity : ℕ

/-- A new RCW. -/
def Caches.fresh : Caches I P := ⟨[], [], 0⟩

/-- The entry with an interface id. -/
def find (cache : List (QICache I P)) (iid : I) : Option P :=
  (cache.find? (·.iid = iid)).map QICache.qiResult

/-- A write behind the entries of a cache. -/
def store (entries : List (QICache I P)) (capacity : ℕ) (cache : QICache I P) :
    Option (List (QICache I P)) :=
  if entries.length < capacity then some (entries ++ [cache]) else none

/-- `RCW::QueryInterfaceCached`. -/
def queryInterfaceCached (rcw : Caches I P) (iid : I) : Option P :=
  match find rcw.short iid with
  | some result => some result
  | none => find rcw.long iid

/-- `RCW::CacheQueriedInterface`.  There is no result after a write outside of a cache. -/
def cacheQueriedInterface (rcw : Caches I P) (iid : I) (queriedInterface : P) :
    Option (Bool × Caches I P) :=
  let cache : QICache I P := ⟨iid, queriedInterface⟩
  if rcw.short.any (·.iid = iid) then some (false, rcw)
  else if rcw.short.length = shortCapacity then
    if rcw.long.any (·.iid = iid) then some (false, rcw)
    else
      let capacity :=
        if rcw.long.length = rcw.qiLongCacheCapacity then rcw.qiLongCacheCapacity * 2
        else rcw.qiLongCacheCapacity
      (store rcw.long capacity cache).map fun long => (true, ⟨rcw.short, long, capacity⟩)
  else
    (store rcw.short shortCapacity cache).map fun short =>
      (true, ⟨short, rcw.long, rcw.qiLongCacheCapacity⟩)

/-! ### Sequences of calls -/

inductive Call (I P : Type*)
  | cache (iid : I) (queriedInterface : P)
  | query (iid : I)

/-- What a call returns. -/
inductive Output (P : Type*)
  | cached (first : Bool)
  | found (result : Option P)
  deriving DecidableEq

/-- One call. -/
def step (rcw : Caches I P) : Call I P → Option (Output P × Caches I P)
  | .cache iid queriedInterface =>
    (cacheQueriedInterface rcw iid queriedInterface).map fun (first, rcw) => (.cached first, rcw)
  | .query iid => some (.found (queryInterfaceCached rcw iid), rcw)

/-- The calls one after the other, with what they return. -/
def run (rcw : Caches I P) : List (Call I P) → Option (List (Output P))
  | [] => some []
  | call :: calls =>
    match step rcw call with
    | none => none
    | some (output, rcw) => (run rcw calls).map (output :: ·)

/-- A call on a map, which keeps the first interface of an id. -/
def mapStep (map : I → Option P) : Call I P → Output P × (I → Option P)
  | .cache iid queriedInterface =>
    match map iid with
    | none => (.cached true, Function.update map iid (some queriedInterface))
    | some _ => (.cached false, map)
  | .query iid => (.found (map iid), map)

/-- The calls on a map. -/
def mapRun (map : I → Option P) : List (Call I P) → List (Output P)
  | [] => []
  | call :: calls => (mapStep map call).1 :: mapRun (mapStep map call).2 calls

/-- The calls on a new RCW return what they return on a map, and write inside of the caches. -/
def IsMap (calls : List (Call I P)) : Prop :=
  run .fresh calls = some (mapRun (fun _ => none) calls)

/-- The interface ids that are cached. -/
def ids : List (Call I P) → List I
  | [] => []
  | .cache iid _ :: calls => iid :: ids calls
  | .query _ :: calls => ids calls

/-! ### The representation -/

/-- The caches of an RCW whose array has not been used stand for a map. -/
structure Represents (rcw : Caches I P) (map : I → Option P) : Prop where
  find : ∀ iid, find rcw.short iid = map iid
  nodup : (rcw.short.map QICache.iid).Nodup
  length_le : rcw.short.length ≤ shortCapacity
  long : rcw.long = []
  capacity : rcw.qiLongCacheCapacity = 0

/-- The ids in the cache. -/
def known (rcw : Caches I P) : Finset I := (rcw.short.map QICache.iid).toFinset

variable {rcw rcw' : Caches I P} {map : I → Option P} {iid : I} {p : P}

theorem represents_fresh : Represents (.fresh : Caches I P) fun _ => none :=
  ⟨fun _ => rfl, List.nodup_nil, Nat.zero_le _, rfl, rfl⟩

theorem Represents.card_known (h : Represents rcw map) : (known rcw).card = rcw.short.length := by
  rw [known, List.toFinset_card_of_nodup h.nodup, List.length_map]

theorem Represents.any_iff (h : Represents rcw map) :
    rcw.short.any (·.iid = iid) = true ↔ (map iid).isSome := by
  rw [← h.find, QueriedInterfaces.find, Option.isSome_map, List.find?_isSome, List.any_eq_true]

theorem Represents.mem_known (h : Represents rcw map) : iid ∈ known rcw ↔ (map iid).isSome := by
  rw [← h.any_iff, known, List.mem_toFinset, List.mem_map, List.any_eq_true]
  simp

theorem Represents.query (h : Represents rcw map) : queryInterfaceCached rcw iid = map iid := by
  rw [queryInterfaceCached, h.find, h.long]
  cases map iid <;> rfl

theorem Represents.cache_known (h : Represents rcw map) (hmem : iid ∈ known rcw) :
    cacheQueriedInterface rcw iid p = some (false, rcw) := by
  rw [cacheQueriedInterface, if_pos (h.any_iff.2 (h.mem_known.1 hmem))]

theorem Represents.cache_new (h : Represents rcw map) (hmem : iid ∉ known rcw)
    (hlt : rcw.short.length < shortCapacity) :
    ∃ rcw', cacheQueriedInterface rcw iid p = some (true, rcw') ∧
      Represents rcw' (Function.update map iid (some p)) ∧ known rcw' = insert iid (known rcw) := by
  have hany := mt h.any_iff.1 (mt h.mem_known.2 hmem)
  refine ⟨⟨rcw.short ++ [⟨iid, p⟩], rcw.long, rcw.qiLongCacheCapacity⟩, ?_, ?_, ?_⟩
  · rw [cacheQueriedInterface, if_neg hany, if_neg hlt.ne, store, if_pos hlt, Option.map_some]
  · refine ⟨fun iid' => ?_, ?_, ?_, h.long, h.capacity⟩
    · have hfind := h.find iid'
      rw [QueriedInterfaces.find] at hfind ⊢
      rw [List.find?_append, Option.map_or, hfind]
      by_cases heq : iid' = iid
      · have hnone : map iid' = none := by
          rw [heq]
          exact Option.not_isSome_iff_eq_none.1 (mt h.mem_known.2 hmem)
        rw [hnone, heq, Function.update_self]
        simp
      · rw [Function.update_of_ne heq]
        simp [Ne.symm heq]
    · rw [List.map_append, List.nodup_append]
      refine ⟨h.nodup, List.nodup_singleton _, fun a ha b hb => ?_⟩
      rw [List.map_singleton, List.mem_singleton] at hb
      rw [hb]
      rintro rfl
      exact hmem (List.mem_toFinset.2 ha)
    · rw [List.length_append]
      exact hlt
  · rw [known, known, List.map_append, List.toFinset_append, List.map_singleton]
    ext
    simp

theorem Represents.cache_full (h : Represents rcw map) (hmem : iid ∉ known rcw)
    (hfull : rcw.short.length = shortCapacity) : cacheQueriedInterface rcw iid p = none := by
  have hany := mt h.any_iff.1 (mt h.mem_known.2 hmem)
  rw [cacheQueriedInterface, if_neg hany, if_pos hfull, h.long, h.capacity]
  rfl

/-! ### Runs -/

theorem Represents.run_iff (h : Represents rcw map) (calls : List (Call I P)) :
    run rcw calls = some (mapRun map calls) ↔
      (known rcw ∪ (ids calls).toFinset).card ≤ shortCapacity := by
  induction calls generalizing rcw map with
  | nil =>
    rw [ids, List.toFinset_nil, Finset.union_empty, h.card_known]
    exact iff_of_true rfl h.length_le
  | cons call calls ih =>
    cases call with
    | query iid =>
      rw [run, step, mapRun, mapStep, ids, h.query]
      simpa using ih h
    | cache iid p =>
      rw [run, step, mapRun, mapStep, ids, List.toFinset_cons, Finset.union_insert]
      by_cases hmem : iid ∈ known rcw
      · obtain ⟨p', hp'⟩ := Option.isSome_iff_exists.1 (h.mem_known.1 hmem)
        rw [h.cache_known hmem, hp', Finset.insert_eq_self.2 (Finset.mem_union_left _ hmem)]
        simpa using ih h
      · have hnone := Option.not_isSome_iff_eq_none.1 (mt h.mem_known.2 hmem)
        rw [hnone]
        rcases h.length_le.lt_or_eq with hlt | hfull
        · obtain ⟨rcw', hcache, h', hknown⟩ := h.cache_new (p := p) hmem hlt
          rw [hcache, ← Finset.insert_union, ← hknown]
          simpa using ih h'
        · rw [h.cache_full hmem hfull]
          refine iff_of_false nofun (Nat.not_le.2 ?_)
          rw [← hfull, ← h.card_known]
          refine Finset.card_lt_card ⟨fun a ha => ?_, fun hsub => hmem ?_⟩
          · exact Finset.mem_insert_of_mem (Finset.mem_union_left _ ha)
          · exact hsub (Finset.mem_insert_self _ _)

/-- **The caches are a map for up to 8 interface ids.** -/
theorem isMap_iff (calls : List (Call I P)) :
    IsMap calls ↔ (ids calls).toFinset.card ≤ shortCapacity := by
  rw [IsMap, represents_fresh.run_iff, known]
  simp [Caches.fresh]

/-- The ninth interface is written outside of the caches. -/
theorem not_isMap_nine :
    run .fresh ((List.range 9).map fun iid => Call.cache iid ()) = none ∧
      ¬ IsMap ((List.range 9).map fun iid => Call.cache iid ()) := by
  have hrun : run .fresh ((List.range 9).map fun iid => Call.cache iid ()) = none := rfl
  refine ⟨hrun, fun h => ?_⟩
  rw [IsMap, hrun] at h
  cases h

end QueriedInterfaces

end Il2Cpp
