import Il2Cpp.Baselib.Lock

/-!
# `Baselib_CappedSemaphore` on a system semaphore, and the lock made of it

`external/baselib/Include/C/Internal/Baselib_CappedSemaphore_SemaphoreBased.inl.h` and
`Baselib_Lock_SemaphoreBased.inl.h`, for any number of threads.

* `Place`, `step` : where a thread is in the functions, and the atomic operations.
* `Inv` : the accounts of a semaphore.
* `cappedSemaphore_accounts` : no wakeup is lost and no token is lost or made up.
* `semaphoreLock_refines` : with one token the semaphore is a lock.
-/

namespace Il2Cpp

namespace CappedSemaphore

/-- Where a thread is. -/
inductive Place
  | out
  /-- before `Baselib_SystemSemaphore_Acquire`, or the function that can time out -/
  | acquire (timed : Bool)
  /-- the loop of `TryAcquire` -/
  | tryAcquire (previousCount : ℤ)
  /-- after a timeout, before `count` is loaded -/
  | timedOut
  /-- before the compare-exchange that gives the acquired token back -/
  | giveBack (count : ℤ)
  /-- after `Baselib_Thread_YieldExecution` -/
  | yielded
  /-- the loop of `Release` -/
  | release (count previousCount : ℤ)
  /-- before `Baselib_SystemSemaphore_Release` -/
  | wakeUp (threadsToWakeup : ℤ)
  deriving DecidableEq

/-- What a thread does. -/
inductive Label (ι : Type*)
  /-- `Acquire` or `TryTimedAcquire`, up to its first operation -/
  | acquire (i : ι) (timed : Bool)
  | tryAcquire (i : ι)
  | release (i : ι) (count : ℕ)
  /-- `ResetAndReleaseWaitingThreads` -/
  | reset (i : ι)
  | timeout (i : ι)
  /-- the next operation; a weak compare-exchange can fail for no reason -/
  | run (i : ι) (spurious : Bool)

def Label.thread {ι : Type*} : Label ι → ι
  | acquire i _ | tryAcquire i | release i _ | reset i | timeout i | run i _ => i

/-- The semaphore, the system semaphore and the threads. -/
structure State (ι : Type*) where
  count : ℤ
  /-- The tokens of the system semaphore. -/
  tokens : ℤ
  threads : ι → Place
  /-- The tokens that a thread has acquired, less those that it has submitted. -/
  held : ι → ℤ
  /-- What `ResetAndReleaseWaitingThreads` has taken from `count`. -/
  discarded : ℤ

variable {ι : Type*}

/-- A semaphore with `n` tokens. -/
def init (n : ℤ) : State ι := ⟨n, 0, fun _ => .out, fun _ => 0, 0⟩

section

variable [DecidableEq ι]

/-- Thread `i` comes to `p` with `d` tokens more. -/
def State.set (s : State ι) (i : ι) (count tokens d : ℤ) (p : Place) : State ι :=
  { s with count, tokens, threads := Function.update s.threads i p
           held := Function.update s.held i (s.held i + d) }

/-- The operation at a place: `count`, the tokens of the system semaphore, the tokens that the thread
gains, and where it comes to. -/
def runPlace (cap : ℕ) (count tokens : ℤ) (spurious : Bool) : Place → Option (ℤ × ℤ × ℤ × Place)
  | .out => none
  | .acquire _ => if 0 < tokens then some (count, tokens - 1, 1, .out) else none
  | .tryAcquire previousCount =>
    if count = previousCount ∧ spurious = false then some (count - 1, tokens, 1, .out)
    else some (count, tokens, 0, if 0 < count then .tryAcquire count else .out)
  | .timedOut => some (count, tokens, 0, if count < 0 then .giveBack count else .yielded)
  | .giveBack expected =>
    if count = expected ∧ spurious = false then some (count + 1, tokens, 0, .out)
    else some (count, tokens, 0, if count < 0 then .giveBack count else .yielded)
  | .yielded =>
    if 0 < tokens then some (count, tokens - 1, 1, .out) else some (count, tokens, 0, .timedOut)
  | .release n previousCount =>
    if previousCount = cap then some (count, tokens, 0, .out)
    else
      let n := if previousCount + n > cap then cap - previousCount else n
      if count = previousCount ∧ spurious = false then
        some (count + n, tokens, -n, if previousCount < 0 then
          .wakeUp (if n < -previousCount then n else -previousCount) else .out)
      else some (count, tokens, 0, .release n count)
  | .wakeUp threadsToWakeup => some (count, tokens + threadsToWakeup, 0, .out)

/-- A step. -/
def step (cap : ℕ) (s : State ι) : Label ι → Option (State ι)
  | .acquire i timed =>
    if s.threads i = .out then
      some (if 0 < s.count then s.set i (s.count - 1) s.tokens 1 .out
        else s.set i (s.count - 1) s.tokens 0 (.acquire timed))
    else none
  | .tryAcquire i =>
    if s.threads i = .out then
      some (s.set i s.count s.tokens 0 (if 0 < s.count then .tryAcquire s.count else .out))
    else none
  | .release i count =>
    if s.threads i = .out then some (s.set i s.count s.tokens 0 (.release count s.count)) else none
  | .reset i =>
    if s.threads i = .out then
      some { s.set i 0 s.tokens 0 (if 0 ≤ s.count then .out else .wakeUp (-s.count)) with
        discarded := s.discarded + s.count }
    else none
  | .timeout i =>
    if s.threads i = .acquire true then some (s.set i s.count s.tokens 0 .timedOut) else none
  | .run i spurious =>
    (runPlace cap s.count s.tokens spurious (s.threads i)).map fun x =>
      s.set i x.1 x.2.1 x.2.2.1 x.2.2.2

/-- The transition system. -/
def lts (cap : ℕ) : LTS (State ι) (Label ι) := .ofFun (step cap)

/-! ### The accounts -/

/-- The thread waits for a token that `count` no longer counts. -/
def Place.waits : Place → ℤ
  | acquire _ | timedOut | giveBack _ | yielded => 1
  | out | tryAcquire _ | release _ _ | wakeUp _ => 0

/-- The tokens that the thread is going to hand to the system semaphore. -/
def Place.pending : Place → ℤ
  | wakeUp n => n
  | _ => 0

/-- What a thread remembers. -/
def Place.Sound (cap : ℕ) : Place → Prop
  | tryAcquire previousCount => 0 < previousCount
  | giveBack count => count < 0
  | release count previousCount => 0 ≤ count ∧ previousCount ≤ cap
  | wakeUp n => 0 ≤ n
  | out | acquire _ | timedOut | yielded => True

variable [Fintype ι]

def State.waiting (s : State ι) : ℤ := ∑ i, (s.threads i).waits
def State.pending (s : State ι) : ℤ := ∑ i, (s.threads i).pending
def State.acquired (s : State ι) : ℤ := ∑ i, s.held i

/-- The invariant of a semaphore that began with `n` tokens. -/
structure Inv (cap : ℕ) (n : ℤ) (s : State ι) : Prop where
  count_le : s.count ≤ cap
  tokens_nonneg : 0 ≤ s.tokens
  /-- A waiting thread has a token, or will get one, or is counted by a negative `count`. -/
  waiting : s.waiting = s.tokens + s.pending + max (-s.count) 0
  balance : s.acquired + s.count + s.waiting + s.discarded = n
  sound : ∀ i, (s.threads i).Sound cap

omit [Fintype ι] in
theorem sum_update [Fintype ι] {α : Type*} (f : α → ℤ) (t : ι → α) (i : ι) (a : α) :
    ∑ j, f (Function.update t i a j) = ∑ j, f (t j) - f (t i) + f a := by
  have hsum : ∑ j, f (Function.update t i a j) = ∑ j, Function.update (fun k => f (t k)) i (f a) j :=
    Finset.sum_congr rfl fun j _ => Function.apply_update (fun _ => f) t i a j
  have herase := Finset.add_sum_erase Finset.univ (fun k => f (t k)) (Finset.mem_univ i)
  rw [hsum, Finset.sum_update_of_mem (Finset.mem_univ i), Finset.sdiff_singleton_eq_erase]
  omega

variable {cap : ℕ} {n : ℤ} {s t : State ι} {i j : ι}

/-- The accounts are kept by a step that keeps them for its own thread. -/
theorem Inv.discard (hs : Inv cap n s) (discarded : ℤ) {count tokens d : ℤ} {p : Place}
    (h : count ≤ cap ∧ 0 ≤ tokens ∧ p.Sound cap ∧
      p.waits - (s.threads i).waits = tokens - s.tokens + (p.pending - (s.threads i).pending) +
        (max (-count) 0 - max (-s.count) 0) ∧
      d + (count - s.count) + (p.waits - (s.threads i).waits) + (discarded - s.discarded) = 0) :
    Inv cap n { s.set i count tokens d p with discarded } where
  count_le := h.1
  tokens_nonneg := h.2.1
  waiting := by
    have hwaiting := hs.waiting
    simp only [State.waiting, State.pending, State.set, sum_update] at hwaiting ⊢
    omega
  balance := by
    have hbalance := hs.balance
    have hheld := sum_update id s.held i (s.held i + d)
    simp only [State.acquired, State.waiting, State.set, sum_update, id] at hbalance hheld ⊢
    omega
  sound j := by
    by_cases hj : j = i
    · subst hj
      simpa [State.set] using h.2.2.1
    · simpa [State.set, hj] using hs.sound j

theorem Inv.set (hs : Inv cap n s) {count tokens d : ℤ} {p : Place}
    (h : count ≤ cap ∧ 0 ≤ tokens ∧ p.Sound cap ∧
      p.waits - (s.threads i).waits = tokens - s.tokens + (p.pending - (s.threads i).pending) +
        (max (-count) 0 - max (-s.count) 0) ∧
      d + (count - s.count) + (p.waits - (s.threads i).waits) = 0) :
    Inv cap n (s.set i count tokens d p) :=
  hs.discard s.discarded (by simpa only [sub_self, add_zero] using h)

theorem Inv.runPlace (hs : Inv cap n s) {spurious : Bool} {count tokens d : ℤ} {p : Place}
    (h : runPlace cap s.count s.tokens spurious (s.threads i) = some (count, tokens, d, p)) :
    Inv cap n (s.set i count tokens d p) := by
  have hcount := hs.count_le
  have htokens := hs.tokens_nonneg
  have hsound := hs.sound i
  refine hs.set ?_
  cases hi : s.threads i <;> simp only [hi, CappedSemaphore.runPlace, Place.Sound] at h hsound
  case out => cases h
  case acquire =>
    obtain ⟨hpos, ⟨⟩⟩ := Option.ite_none_right_eq_some.1 h
    simp only [Place.Sound, Place.waits, Place.pending, true_and]
    omega
  case wakeUp =>
    cases h
    simp only [Place.Sound, Place.waits, Place.pending, true_and]
    omega
  case timedOut | yielded | tryAcquire | giveBack | release =>
    split_ifs at h <;> cases h <;>
      simp only [Place.Sound, Place.waits, Place.pending, true_and] <;> omega

/-- **A step keeps the accounts.** -/
theorem Inv.step {l : Label ι} (hs : Inv cap n s) (h : CappedSemaphore.step cap s l = some t) :
    Inv cap n t := by
  have hcount := hs.count_le
  have htokens := hs.tokens_nonneg
  cases l with
  | run i spurious =>
    obtain ⟨⟨count, tokens, d, p⟩, hp, rfl⟩ := Option.map_eq_some_iff.1 h
    exact hs.runPlace hp
  | acquire i timed | tryAcquire i =>
    obtain ⟨hi, ⟨⟩⟩ := Option.ite_none_right_eq_some.1 h
    split_ifs with hpos
    · refine hs.set ?_
      simp only [hi, Place.Sound, Place.waits, Place.pending, true_and]
      omega
    · refine hs.set ?_
      simp only [hi, Place.Sound, Place.waits, Place.pending, true_and]
      omega
  | release i count | timeout i =>
    obtain ⟨hi, ⟨⟩⟩ := Option.ite_none_right_eq_some.1 h
    refine hs.set ?_
    simp only [hi, Place.Sound, Place.waits, Place.pending, true_and]
    omega
  | reset i =>
    obtain ⟨hi, ⟨⟩⟩ := Option.ite_none_right_eq_some.1 h
    refine hs.discard (s.discarded + s.count) ?_
    split_ifs <;> simp only [hi, Place.Sound, Place.waits, Place.pending, true_and] <;> omega

omit [DecidableEq ι] in
theorem inv_init (h : 0 ≤ n) (hcap : n ≤ cap) : Inv cap n (init n : State ι) where
  count_le := hcap
  tokens_nonneg := le_rfl
  waiting := by
    have hmax : max (-n) 0 = 0 := max_eq_right (by omega)
    simp [State.waiting, State.pending, init, Place.waits, Place.pending, hmax]
  balance := by simp [State.acquired, State.waiting, init, Place.waits]
  sound _ := trivial

theorem inv_of_reachable {G : State ι → Label ι → Prop} (h₀ : 0 ≤ n) (hcap : n ≤ cap)
    (h : (lts cap).ReachWith G (init n) s) : Inv cap n s :=
  h.invariant (inv_init h₀ hcap) fun _ _ _ hs _ hst => hs.step hst

omit [DecidableEq ι] in
theorem Inv.pending_nonneg (hs : Inv cap n s) : 0 ≤ s.pending := by
  refine Finset.sum_nonneg fun i _ => ?_
  have h := hs.sound i
  cases hi : s.threads i <;> simp_all [Place.Sound, Place.pending]

omit [DecidableEq ι] in
theorem waiting_le (s : State ι) : s.waiting ≤ Fintype.card ι := by
  refine (Finset.sum_le_card_nsmul Finset.univ _ 1 fun i _ => ?_).trans (by simp)
  cases s.threads i <;> simp [Place.waits]

/-- **The accounts of a semaphore.**  In every run: each waiting thread has a token of the system
semaphore, will get one from a release that is under way, or is counted by a negative `count`, so
that no wakeup is lost and no token too many is handed out; tokens are neither lost nor made up; and
`count` stays between the number of threads and the cap. -/
theorem cappedSemaphore_accounts (h₀ : 0 ≤ n) (hcap : n ≤ cap)
    (h : (lts cap).Reachable (init n : State ι) s) :
    s.waiting = s.tokens + s.pending + max (-s.count) 0 ∧ 0 ≤ s.tokens ∧ 0 ≤ s.pending ∧
    s.acquired + s.count + s.waiting + s.discarded = n ∧
    -Fintype.card ι ≤ s.count ∧ s.count ≤ cap := by
  have hs := inv_of_reachable h₀ hcap h
  have htokens := hs.tokens_nonneg
  have hpending := hs.pending_nonneg
  have hle := waiting_le s
  have hwaiting := hs.waiting
  exact ⟨hwaiting, htokens, hpending, hs.balance, by omega, hs.count_le⟩

/-! ### The lock -/

/-- **The lock is used as a lock**: `Baselib_Lock_Release` submits one token, and only a thread that
has acquired one calls it. -/
def Owned (s : State ι) : Label ι → Prop
  | .release i count => count = 1 ∧ 0 < s.held i
  | .reset _ => False
  | .acquire _ _ | .tryAcquire _ | .timeout _ | .run _ _ => True

instance (s : State ι) : ∀ l, Decidable (Owned s l)
  | .release i count => inferInstanceAs (Decidable (count = 1 ∧ 0 < s.held i))
  | .reset _ => .isFalse not_false
  | .acquire _ _ | .tryAcquire _ | .timeout _ | .run _ _ => .isTrue trivial

/-- The invariant of the lock, which begins with its token. -/
structure LockInv (s : State ι) : Prop where
  accounts : Inv 1 1 s
  discarded : s.discarded = 0
  held : ∀ i, 0 ≤ s.held i
  releases : ∀ i count previousCount, s.threads i = .release count previousCount →
    count = 1 ∧ previousCount ≤ 0 ∧ 0 < s.held i

omit [DecidableEq ι] in
theorem LockInv.acquired_add (hs : LockInv s) : s.acquired + max s.count 0 ≤ 1 := by
  have hwaiting := hs.accounts.waiting
  have hbalance := hs.accounts.balance
  have htokens := hs.accounts.tokens_nonneg
  have hpending := hs.accounts.pending_nonneg
  rw [hs.discarded] at hbalance
  omega

omit [DecidableEq ι] in
theorem LockInv.held_le (hs : LockInv s) (i : ι) : s.held i ≤ s.acquired :=
  Finset.single_le_sum (fun j _ => hs.held j) (Finset.mem_univ i)

/-- One thread has the token, or none. -/
theorem LockInv.heldBy (hs : LockInv s) : ∃ h, Lock.HeldBy (fun i => 0 < s.held i) h := by
  by_cases hall : ∃ i, 0 < s.held i
  · obtain ⟨i, hi⟩ := hall
    refine ⟨some i, fun j => ⟨fun hj => ?_, fun h => Option.some.inj h ▸ hi⟩⟩
    by_contra hne
    have hsum := Finset.add_le_sum (fun k _ => hs.held k) (Finset.mem_univ i) (Finset.mem_univ j)
      fun h => hne (h ▸ rfl)
    have hle := hs.acquired_add
    rw [State.acquired] at hle
    omega
  · exact ⟨none, fun i => iff_of_false (fun hi => hall ⟨i, hi⟩) nofun⟩

omit [DecidableEq ι] [Fintype ι] in
/-- What an operation of a thread with `held` tokens does to them. -/
theorem runPlace_held {count tokens count' tokens' d held : ℤ} {spurious : Bool} {p p' : Place}
    (hcount : 0 < held → count ≤ 0)
    (hp : ∀ n previousCount, p = .release n previousCount →
      n = 1 ∧ previousCount ≤ 0 ∧ 0 < held)
    (h : runPlace 1 count tokens spurious p = some (count', tokens', d, p')) :
    (d = 0 ∨ d = 1 ∨ d = -1 ∧ 0 < held) ∧ ∀ n previousCount, p' = .release n previousCount →
      n = 1 ∧ previousCount ≤ 0 ∧ 0 < held + d := by
  cases p with
  | out => cases h
  | acquire timed =>
    obtain ⟨-, ⟨⟩⟩ := Option.ite_none_right_eq_some.1 h
    exact ⟨.inr (.inl rfl), nofun⟩
  | wakeUp =>
    cases h
    exact ⟨.inl rfl, nofun⟩
  | tryAcquire | timedOut | giveBack | yielded =>
    simp only [CappedSemaphore.runPlace] at h
    split_ifs at h <;> cases h <;> exact ⟨by simp, nofun⟩
  | release n previousCount =>
    obtain ⟨rfl, hprev, hpos⟩ := hp n previousCount rfl
    have hcap : ¬ previousCount = (1 : ℕ) := by omega
    have hroom : ¬ previousCount + 1 > (1 : ℕ) := by omega
    simp only [CappedSemaphore.runPlace, if_neg hcap, if_neg hroom] at h
    by_cases hcas : count = previousCount ∧ spurious = false
    · rw [if_pos hcas] at h
      cases h
      refine ⟨.inr (.inr ⟨rfl, hpos⟩), ?_⟩
      split_ifs <;> nofun
    · rw [if_neg hcas] at h
      cases h
      refine ⟨.inl rfl, fun n previousCount hrel => ?_⟩
      cases hrel
      exact ⟨rfl, hcount hpos, by omega⟩

omit [Fintype ι] in
/-- What a step does to the tokens of the threads. -/
theorem step_held {l : Label ι} (hcount : ∀ i, 0 < s.held i → s.count ≤ 0)
    (hrel : ∀ i n previousCount, s.threads i = .release n previousCount →
      n = 1 ∧ previousCount ≤ 0 ∧ 0 < s.held i)
    (hg : Owned s l) (h : step 1 s l = some t) :
    ∃ d p, (d = 0 ∨ d = 1 ∨ d = -1 ∧ 0 < s.held l.thread) ∧ t.discarded = s.discarded ∧
      t.held = Function.update s.held l.thread (s.held l.thread + d) ∧
      t.threads = Function.update s.threads l.thread p ∧
      ∀ n previousCount, p = .release n previousCount →
        n = 1 ∧ previousCount ≤ 0 ∧ 0 < s.held l.thread + d := by
  cases l with
  | run i spurious =>
    obtain ⟨⟨count, tokens, d, p⟩, hp, rfl⟩ := Option.map_eq_some_iff.1 h
    obtain ⟨hd, hrel⟩ := runPlace_held (hcount i) (hrel i) hp
    exact ⟨d, p, hd, rfl, rfl, rfl, hrel⟩
  | acquire i timed =>
    obtain ⟨-, ⟨⟩⟩ := Option.ite_none_right_eq_some.1 h
    split_ifs
    · exact ⟨1, _, .inr (.inl rfl), rfl, rfl, rfl, nofun⟩
    · exact ⟨0, _, .inl rfl, rfl, rfl, rfl, nofun⟩
  | tryAcquire i =>
    obtain ⟨-, ⟨⟩⟩ := Option.ite_none_right_eq_some.1 h
    refine ⟨0, _, .inl rfl, rfl, rfl, rfl, ?_⟩
    split_ifs <;> nofun
  | release i count =>
    obtain ⟨-, ⟨⟩⟩ := Option.ite_none_right_eq_some.1 h
    refine ⟨0, _, .inl rfl, rfl, rfl, rfl, fun n previousCount hp => ?_⟩
    cases hp
    exact ⟨by simp [hg.1], hcount i hg.2, by simpa [Label.thread] using hg.2⟩
  | timeout i =>
    obtain ⟨-, ⟨⟩⟩ := Option.ite_none_right_eq_some.1 h
    exact ⟨0, _, .inl rfl, rfl, rfl, rfl, nofun⟩
  | reset i => exact hg.elim

omit [DecidableEq ι] in
theorem LockInv.count_le (hs : LockInv s) (i : ι) (hi : 0 < s.held i) : s.count ≤ 0 := by
  have hle := hs.held_le i
  have hadd := hs.acquired_add
  omega

theorem LockInv.step {l : Label ι} (hs : LockInv s) (hg : Owned s l)
    (h : CappedSemaphore.step 1 s l = some t) : LockInv t := by
  obtain ⟨d, p, hd, hdisc, hheld, hthreads, hrel⟩ :=
    step_held hs.count_le hs.releases hg h
  refine ⟨hs.accounts.step h, hdisc.trans hs.discarded, fun i => ?_, fun i n prev hi => ?_⟩
  · rw [hheld]
    by_cases hil : i = l.thread
    · have h₀ := hs.held l.thread
      subst hil
      rw [Function.update_self]
      omega
    · rw [Function.update_of_ne hil]
      exact hs.held i
  · rw [hthreads] at hi
    rw [hheld]
    by_cases hil : i = l.thread
    · subst hil
      rw [Function.update_self] at hi ⊢
      exact hrel n prev hi
    · rw [Function.update_of_ne hil] at hi ⊢
      exact hs.releases i n prev hi

theorem lockInv_of_reachable (h : (lts 1).ReachWith Owned (init 1 : State ι) s) : LockInv s :=
  h.invariant ⟨inv_init zero_le_one le_rfl, rfl, fun _ => le_rfl, nofun⟩
    fun _ _ _ hs hg hst => hs.step hg hst

/-- The holder after a step. -/
theorem LockInv.spec {l : Label ι} {h : Option ι} (hs : LockInv s) (hg : Owned s l)
    (hst : CappedSemaphore.step 1 s l = some t) (hh : Lock.HeldBy (fun i => 0 < s.held i) h) :
    ∃ h', (Lock.spec Label.thread).step h l h' ∧ Lock.HeldBy (fun i => 0 < t.held i) h' := by
  obtain ⟨d, p, hd, -, hheld, -, -⟩ := step_held hs.count_le hs.releases hg hst
  have hne (j : ι) (hj : j ≠ l.thread) : 0 < t.held j ↔ 0 < s.held j := by
    rw [hheld, Function.update_of_ne hj]
  have hself : t.held l.thread = s.held l.thread + d := by rw [hheld, Function.update_self]
  have hle := (hs.step hg hst).acquired_add
  rw [State.acquired, hheld] at hle
  have hsum := sum_update id s.held l.thread (s.held l.thread + d)
  simp only [id] at hsum
  have hacq := hs.held_le
  simp only [State.acquired] at hacq
  rcases hd with rfl | rfl | ⟨rfl, hpos⟩
  · refine ⟨h, .inl rfl, hh.congr fun j => ?_⟩
    by_cases hj : j = l.thread
    · rw [hj, hself, add_zero]
    · exact hne j hj
  · -- all tokens are accounted for by the new one
    have hzero (j : ι) : s.held j = 0 := by
      have := hacq j
      have := hs.held j
      omega
    obtain rfl : h = none := by
      cases h with
      | none => rfl
      | some j => exact absurd ((hh j).2 rfl) (by simp [hzero j])
    exact ⟨some l.thread, .inr (.inl ⟨rfl, rfl⟩), hh.take (by simp [hself, hzero]) hne⟩
  · obtain rfl := (hh l.thread).1 hpos
    have hone := hacq l.thread
    have hadd := hs.acquired_add
    rw [State.acquired] at hadd
    exact ⟨none, .inr (.inr ⟨rfl, rfl⟩), hh.release (by omega) hne⟩

/-- **The lock on a semaphore is a lock.**  In every run in which only the owner releases: at most
one thread has the token, a step takes it when it is free or gives it back for its own thread,
`Baselib_Lock_Release` always submits its token, and when no thread has the token and no release is
under way, it is there for a thread that waits. -/
theorem semaphoreLock_refines (h : (lts 1).ReachWith Owned (init 1 : State ι) s) :
    (∃ h, Lock.HeldBy (fun i => 0 < s.held i) h ∧ ∀ l t, Owned s l → step 1 s l = some t →
      ∃ h', (Lock.spec Label.thread).step h l h' ∧ Lock.HeldBy (fun i => 0 < t.held i) h') ∧
    (∀ i n previousCount, s.threads i = .release n previousCount → n = 1 ∧ previousCount ≤ 0) ∧
    ((∀ i, s.held i = 0) → s.pending = 0 → 0 < s.waiting → 0 < s.tokens) := by
  have hs := lockInv_of_reachable h
  obtain ⟨holder, hh⟩ := hs.heldBy
  refine ⟨⟨holder, hh, fun l t hg hst => hs.spec hg hst hh⟩,
    fun i n prev hi => ⟨(hs.releases i n prev hi).1, (hs.releases i n prev hi).2.1⟩,
    fun hfree hpending hwaits => ?_⟩
  have hwaiting := hs.accounts.waiting
  have hbalance := hs.accounts.balance
  have hzero : s.acquired = 0 := Finset.sum_eq_zero fun i _ => hfree i
  rw [hs.discarded] at hbalance
  omega

end

/-- A thread waits for the token of another one. -/
def contended : List (Label Bool) := [.acquire false false, .acquire true true]

theorem cappedSemaphore_accounts_contended : ∃ s : State Bool, s.count = -1 ∧
    s.waiting = s.tokens + s.pending + 1 := by
  obtain ⟨s, hs, hc⟩ := LTS.exists_reachWith (f := step 1) (G := fun _ _ => True) (i := init 1)
    contended (fun s : State Bool => s.count = -1) (by decide)
  exact ⟨s, hc, by simpa [hc] using (cappedSemaphore_accounts (by decide) (by decide) hs).1⟩

theorem semaphoreLock_refines_contended : ∃ s : State Bool, s.count = -1 ∧
    ∃ h, Lock.HeldBy (fun i => 0 < s.held i) h := by
  obtain ⟨s, hs, hc⟩ := LTS.exists_reachWith (f := step 1) (G := Owned) (i := init 1)
    contended (fun s : State Bool => s.count = -1) (by decide)
  obtain ⟨⟨h, hh, -⟩, -⟩ := semaphoreLock_refines hs
  exact ⟨s, hc, h, hh⟩

end CappedSemaphore

end Il2Cpp
