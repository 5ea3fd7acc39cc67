import Mathlib

/-!
# Interning

A table that hands out one object for all keys that count as equal.  An object is an address
together with its contents, the key it was made from.

* `Lookup` : what a hash set promises of a lookup.  Nothing is assumed where equal keys have
  different hashes; such a lookup may succeed or fail.
* `intern` : look a key up and insert a new object if there is none.
* `Canonical` : the invariant of a table, for keys from a set `S` on which the comparison is an
  equivalence that the hash respects (`KeyLaws`).
* `intern_spec` : what one call does.  `Canonical.addr_eq_iff` : in a canonical table equal
  addresses mean equal keys.
-/

namespace Il2Cpp

/-- An object at an address. -/
structure Obj (K : Type) where
  /-- Its address. -/
  addr : ℕ
  /-- Its contents. -/
  key : K
  deriving DecidableEq

variable {K : Type}

/-- The lookup of a hash set with a hash function, which may fault (`none`), and a comparison. -/
structure Lookup (hash : K → Option UInt64) (equal : K → K → Bool) where
  /-- The object that the set finds for a key. -/
  find : List (Obj K) → K → Option (Obj K)
  /-- It is an object of the set with an equal key. -/
  find_sound : ∀ entries k e, find entries k = some e → e ∈ entries ∧ equal k e.key = true
  /-- An equal key with the same hash is found. -/
  find_complete : ∀ entries k, ∀ e ∈ entries, hash k = hash e.key → equal k e.key = true →
    (find entries k).isSome

/-- The lookup that compares the hashes before the keys. -/
def Lookup.byHash (hash : K → Option UInt64) (equal : K → K → Bool) : Lookup hash equal where
  find entries k := entries.find? fun e => hash k == hash e.key && equal k e.key
  find_sound entries k e h := by
    have := List.find?_some h
    exact ⟨List.mem_of_find?_eq_some h, by simp_all⟩
  find_complete entries k e he hh hk := by
    rw [List.find?_isSome]
    exact ⟨e, he, by simp [hh, hk]⟩

/-- A table of interned objects. -/
structure InternTable (K : Type) where
  /-- The objects of the set, the newest first. -/
  entries : List (Obj K)
  /-- The next address that the allocator returns. -/
  next : ℕ

namespace InternTable

/-- The empty table. -/
def empty : InternTable K := ⟨[], 0⟩

/-- A new object for a key, inserted in the set. -/
def insert (t : InternTable K) (k : K) : Obj K × InternTable K :=
  (⟨t.next, k⟩, ⟨⟨t.next, k⟩ :: t.entries, t.next + 1⟩)

variable {hash : K → Option UInt64} {equal : K → K → Bool} (L : Lookup hash equal)

/-- Look a key up, and insert it if the set has none that is equal; `none` if the hash faults. -/
def intern (t : InternTable K) (k : K) : Option (Obj K × InternTable K) :=
  (hash k).map fun _ => ((L.find t.entries k).map fun e => (e, t)).getD (t.insert k)

end InternTable

/-- On the keys of `S` the comparison is an equivalence, which the hash respects, and the hash does
not fault. -/
structure KeyLaws (hash : K → Option UInt64) (equal : K → K → Bool) (S : K → Prop) : Prop where
  refl : ∀ a, S a → equal a a = true
  symm : ∀ a b, S a → S b → equal a b = true → equal b a = true
  trans : ∀ a b c, S a → S b → S c → equal a b = true → equal b c = true → equal a c = true
  hash_eq : ∀ a b, S a → S b → equal a b = true → hash a = hash b
  hash_isSome : ∀ a, S a → (hash a).isSome = true

/-- The invariant of a table of keys from `S`. -/
structure Canonical (equal : K → K → Bool) (S : K → Prop) (t : InternTable K) : Prop where
  /-- New addresses are fresh. -/
  fresh : ∀ e ∈ t.entries, e.addr < t.next
  /-- No two objects have one address. -/
  addr_inj : ∀ e ∈ t.entries, ∀ e' ∈ t.entries, e.addr = e'.addr → e = e'
  /-- No object is in the table twice. -/
  nodup : t.entries.Nodup
  /-- No two objects have equal keys. -/
  unique : ∀ e ∈ t.entries, ∀ e' ∈ t.entries, equal e.key e'.key = true → e = e'
  /-- All keys are from `S`. -/
  mem : ∀ e ∈ t.entries, S e.key

namespace Canonical

open InternTable

variable {hash : K → Option UInt64} {equal : K → K → Bool} {S S' : K → Prop}
  {t t' : InternTable K}

theorem empty (equal : K → K → Bool) (S : K → Prop) : Canonical equal S InternTable.empty :=
  ⟨nofun, nofun, .nil, nofun, nofun⟩

theorem mono (h : Canonical equal S t) (hS : ∀ k, S k → S' k) : Canonical equal S' t :=
  ⟨h.fresh, h.addr_inj, h.nodup, h.unique, fun e he => hS _ (h.mem e he)⟩

/-- No key is in the table twice. -/
theorem pairwise (h : Canonical equal S t) :
    t.entries.Pairwise fun e e' => equal e.key e'.key = false := by
  refine h.nodup.imp_of_mem fun {e e'} he he' hne => ?_
  by_contra heq
  exact hne (h.unique e he e' he' (by simpa using heq))

/-- **In a canonical table two objects have one address exactly when their keys are equal.** -/
theorem addr_eq_iff (hl : KeyLaws hash equal S) (h : Canonical equal S t) {e e' : Obj K}
    (he : e ∈ t.entries) (he' : e' ∈ t.entries) {k k' : K} (hk : S k) (hk' : S k')
    (hek : equal k e.key = true) (hek' : equal k' e'.key = true) :
    e.addr = e'.addr ↔ equal k k' = true := by
  have hm := h.mem e he
  have hm' := h.mem e' he'
  constructor
  · intro ha
    obtain rfl := h.addr_inj e he e' he' ha
    exact hl.trans _ _ _ hk hm hk' hek (hl.symm _ _ hk' hm hek')
  · intro heq
    have hee : equal e.key e'.key = true :=
      hl.trans _ _ _ hm hk hm' (hl.symm _ _ hk hm hek) (hl.trans _ _ _ hk hk' hm' heq hek')
    rw [h.unique e he e' he' hee]

/-- A new key may be inserted when no object has an equal one. -/
theorem insert (hl : KeyLaws hash equal S) (h : Canonical equal S t) {k : K} (hk : S k)
    (hnew : ∀ e ∈ t.entries, equal k e.key = false) : Canonical equal S (t.insert k).2 where
  fresh e he := by
    rcases List.mem_cons.1 he with rfl | he
    · exact Nat.lt_succ_self _
    · exact Nat.lt_succ_of_lt (h.fresh e he)
  addr_inj e he e' he' ha := by
    rcases List.mem_cons.1 he with rfl | he <;> rcases List.mem_cons.1 he' with rfl | he'
    · rfl
    · exact absurd (h.fresh e' he') (by simp [← ha])
    · exact absurd (h.fresh e he) (by simp [ha])
    · exact h.addr_inj e he e' he' ha
  nodup := List.nodup_cons.2 ⟨fun he => Nat.lt_irrefl _ (h.fresh _ he), h.nodup⟩
  unique e he e' he' heq := by
    rcases List.mem_cons.1 he with rfl | he <;> rcases List.mem_cons.1 he' with rfl | he'
    · rfl
    · exact absurd heq (by simp [hnew e' he'])
    · exact absurd (hl.symm _ _ (h.mem e he) hk heq) (by simp [hnew e he])
    · exact h.unique e he e' he' heq
  mem e he := by
    rcases List.mem_cons.1 he with rfl | he
    · exact hk
    · exact h.mem e he

end Canonical

namespace InternTable

variable {hash : K → Option UInt64} {equal : K → K → Bool} {S : K → Prop}
  {L : Lookup hash equal} {t t' : InternTable K} {k : K} {e : Obj K}

theorem intern_isSome (L : Lookup hash equal) (t : InternTable K) (h : (hash k).isSome = true) :
    ∃ e t', t.intern L k = some (e, t') := by
  obtain ⟨v, hv⟩ := Option.isSome_iff_exists.1 h
  exact ⟨_, _, by rw [intern, hv, Option.map_some]⟩

/-- The two outcomes of a call. -/
theorem intern_cases (h : t.intern L k = some (e, t')) :
    L.find t.entries k = some e ∧ t' = t ∨
      L.find t.entries k = none ∧ (e, t') = t.insert k := by
  obtain ⟨-, -, h⟩ := Option.map_eq_some_iff.1 h
  cases hf : L.find t.entries k with
  | some e' => rw [hf] at h; cases h; exact .inl ⟨rfl, rfl⟩
  | none => rw [hf] at h; exact .inr ⟨rfl, h.symm⟩

/-- The object that a call returns has an equal key, in any table. -/
theorem intern_equal (hr : equal k k = true) (h : t.intern L k = some (e, t')) :
    equal k e.key = true := by
  rcases intern_cases h with ⟨hf, -⟩ | ⟨-, hi⟩
  · exact (L.find_sound _ _ _ hf).2
  · cases hi; exact hr

theorem entries_suffix (h : t.intern L k = some (e, t')) : t.entries <:+ t'.entries := by
  rcases intern_cases h with ⟨-, rfl⟩ | ⟨-, hi⟩
  · exact List.suffix_rfl
  · cases hi; exact List.suffix_cons _ _

theorem mem_entries (h : t.intern L k = some (e, t')) : e ∈ t'.entries := by
  rcases intern_cases h with ⟨hf, rfl⟩ | ⟨-, hi⟩
  · exact (L.find_sound _ _ _ hf).1
  · cases hi; exact List.mem_cons_self

/-- The objects after a call are those before it and one with the key asked for. -/
theorem mem_or_key_eq (h : t.intern L k = some (e, t')) {e' : Obj K} (he' : e' ∈ t'.entries) :
    e' ∈ t.entries ∨ e'.key = k := by
  rcases intern_cases h with ⟨-, rfl⟩ | ⟨-, hi⟩
  · exact .inl he'
  · cases hi
    rcases List.mem_cons.1 he' with rfl | he'
    exacts [.inr rfl, .inl he']

/-- **A call keeps the table canonical.** -/
theorem intern_canonical (hl : KeyLaws hash equal S) (hc : Canonical equal S t) (hk : S k)
    (h : t.intern L k = some (e, t')) : Canonical equal S t' := by
  rcases intern_cases h with ⟨-, rfl⟩ | ⟨hf, hi⟩
  · exact hc
  · cases hi
    refine hc.insert hl hk fun e' he' => ?_
    by_contra heq
    have heq : equal k e'.key = true := by simpa using heq
    have := L.find_complete _ k e' he' (hl.hash_eq _ _ hk (hc.mem e' he') heq) heq
    simp [hf] at this

/-- A key that is in the table is found there. -/
theorem intern_eq_self (L : Lookup hash equal) (hl : KeyLaws hash equal S)
    (hc : Canonical equal S t) (hk : S k) (he : e ∈ t.entries) (heq : equal k e.key = true) :
    t.intern L k = some (e, t) := by
  obtain ⟨e', t', h⟩ := intern_isSome L t (hl.hash_isSome k hk)
  have hsome := L.find_complete _ k e he (hl.hash_eq _ _ hk (hc.mem e he) heq) heq
  rcases intern_cases h with ⟨hf, rfl⟩ | ⟨hf, -⟩
  · obtain ⟨he', heq'⟩ := L.find_sound _ _ _ hf
    have hkey := hl.trans _ _ _ (hc.mem e he) hk (hc.mem e' he')
      (hl.symm _ _ hk (hc.mem e he) heq) heq'
    rw [h, hc.unique e he e' he' hkey]
  · simp [hf] at hsome

end InternTable

end Il2Cpp
