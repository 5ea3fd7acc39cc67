import Il2Cpp.ThreadPool.IOSelector

/-!
# The jobs of the socket selector

* `Accounted` : each job that was handed to the selector is in an update, in the list of its socket
  or given to the thread pool, as many times as it was handed over.
* `Tables.Registered` : `poll` waits for the operations of the jobs in the lists.
* `Condition` : the steps that lose no job.
* `selector_accounts` : the jobs in every run of such steps, and what a callback gives.
* `removed_socket` : removing a socket that has jobs loses them, and crashes the process.
-/

namespace Il2Cpp

namespace IOSelector

/-! ### The poll requests of a socket -/

/-- The events that `poll` waits for on a socket. -/
def requests (pollFds : List PollRequest) (fd : ℕ) : List Operations :=
  pollFds.filterMap fun r => if r.fd = some fd then some r.events else none

theorem requests_append (l l' : List PollRequest) (fd : ℕ) :
    requests (l ++ l') fd = requests l fd ++ requests l' fd :=
  List.filterMap_append

theorem requests_cons (r : PollRequest) (l : List PollRequest) (fd : ℕ) :
    requests (r :: l) fd = (if r.fd = some fd then [r.events] else []) ++ requests l fd := by
  rw [requests, List.filterMap_cons]
  split_ifs <;> rfl

theorem requests_of_ne {l : List PollRequest} {fd : ℕ} (h : ∀ e ∈ l, e.fd ≠ some fd) :
    requests l fd = [] := by
  rw [requests, List.filterMap_eq_nil_iff]
  exact fun e he => if_neg (h e he)

theorem replaceFirst_eq_some {x : Option ℕ} {r : PollRequest} {l l' : List PollRequest}
    (h : replaceFirst x r l = some l') :
    ∃ l₁ e l₂, l = l₁ ++ e :: l₂ ∧ e.fd = x ∧ l' = l₁ ++ r :: l₂ := by
  induction l generalizing l' with
  | nil => cases h
  | cons e es ih =>
    rw [replaceFirst] at h
    split_ifs at h with he
    · cases h
      exact ⟨[], e, es, rfl, he, rfl⟩
    · obtain ⟨l'', hl'', rfl⟩ := Option.map_eq_some_iff.1 h
      obtain ⟨l₁, e', l₂, rfl, he', rfl⟩ := ih hl''
      exact ⟨e :: l₁, e', l₂, rfl, he', rfl⟩

theorem replaceFirst_eq_none {x : Option ℕ} {r : PollRequest} {l : List PollRequest}
    (h : replaceFirst x r l = none) : ∀ e ∈ l, e.fd ≠ x := by
  induction l with
  | nil => exact fun e he => (nomatch he)
  | cons e es ih =>
    rw [replaceFirst] at h
    split_ifs at h with he
    rw [List.forall_mem_cons]
    exact ⟨he, ih (Option.map_eq_none_iff.1 h)⟩

theorem requests_replaceFirst {fd fd' : ℕ} {r : PollRequest} {l l' : List PollRequest}
    (hl : (requests l fd).length ≤ 1) (hr : ∀ fd', r.fd = some fd' → fd' = fd)
    (h : replaceFirst (some fd) r l = some l') : requests l' fd' =
      if fd' = fd then (if r.fd = some fd then [r.events] else []) else requests l fd' := by
  obtain ⟨l₁, e, l₂, rfl, he, rfl⟩ := replaceFirst_eq_some h
  simp only [requests_append, requests_cons] at hl ⊢
  rcases eq_or_ne fd' fd with rfl | hfd
  · rw [if_pos he] at hl
    simp only [List.length_append, List.length_singleton] at hl
    have h₁ : requests l₁ fd' = [] := List.eq_nil_of_length_eq_zero (by omega)
    have h₂ : requests l₂ fd' = [] := List.eq_nil_of_length_eq_zero (by omega)
    rw [if_pos rfl, h₁, h₂, List.nil_append, List.append_nil]
  · rw [if_neg hfd, if_neg fun h => hfd (hr fd' h), if_neg]
    rintro h
    exact hfd (Option.some.inj (h.symm.trans he))

theorem requests_pollRegisterFd {l : List PollRequest} {fd : ℕ} (hl : (requests l fd).length ≤ 1)
    (events : Operations) (fd' : ℕ) : requests (pollRegisterFd l fd events) fd' =
      if fd' = fd then [events] else requests l fd' := by
  have hnew : ∀ fd', (⟨some fd, events⟩ : PollRequest).fd = some fd' → fd' = fd :=
    fun _ h => (Option.some.inj h).symm
  rw [pollRegisterFd]
  split
  · rename_i l' h
    rw [requests_replaceFirst hl hnew h, if_pos rfl]
  · rename_i h
    have hnone := requests_of_ne (replaceFirst_eq_none h)
    -- a free entry is taken, or the table grows
    have hadd : ∀ l₁ l₂ : List PollRequest, (∀ fd', requests (l₁ ++ l₂) fd' = requests l fd') →
        requests (l₁ ++ ⟨some fd, events⟩ :: l₂) fd' =
          if fd' = fd then [events] else requests l fd' := by
      intro l₁ l₂ heq
      have heq' := heq fd'
      rw [requests_append] at heq'
      rw [requests_append, requests_cons]
      rcases eq_or_ne fd' fd with rfl | hfd
      · rw [hnone, List.append_eq_nil_iff] at heq'
        simp [heq']
      · rw [if_neg fun h => hfd (hnew fd' h), if_neg hfd, List.nil_append, heq']
    split
    · rename_i l' h'
      obtain ⟨l₁, e, l₂, rfl, he, rfl⟩ := replaceFirst_eq_some h'
      refine hadd l₁ l₂ fun fd' => ?_
      rw [requests_append, requests_append, requests_cons, if_neg, List.nil_append]
      rw [he]
      exact nofun
    · exact hadd l [] fun fd' => by rw [List.append_nil]

theorem requests_rdropWhile (l : List PollRequest) (fd : ℕ) :
    requests (l.rdropWhile (·.fd = none)) fd = requests l fd := by
  induction l using List.reverseRecOn with
  | nil => rfl
  | append_singleton l e ih =>
    rw [List.rdropWhile_concat]
    split_ifs with he
    · rw [ih, requests_append, requests_cons, if_neg]
      · simp [requests]
      · rw [of_decide_eq_true he]
        exact nofun
    · rfl

theorem requests_pollRemoveFd {l : List PollRequest} {fd : ℕ} (hl : (requests l fd).length ≤ 1)
    (fd' : ℕ) :
    requests (pollRemoveFd l fd) fd' = if fd' = fd then [] else requests l fd' := by
  rw [pollRemoveFd, requests_rdropWhile]
  cases h : replaceFirst (some fd) ⟨none, ⟨false, false⟩⟩ l with
  | some l' =>
    rw [Option.getD_some, requests_replaceFirst hl (by simp) h]
    rfl
  | none =>
    rw [Option.getD_none]
    split_ifs with hfd
    · rw [hfd]
      exact requests_of_ne (replaceFirst_eq_none h)
    · rfl

/-! ### The tables -/

/-- `poll` waits for the operations of the jobs in the list of each socket, and for nothing else. -/
def Tables.Registered (c : Tables) : Prop :=
  ∀ fd, requests c.pollFds fd = (c.states fd).toList.map getOperationsForJobs

/-- How often a job is in the list of a socket. -/
def Tables.listed (c : Tables) : Option ℕ → Job → ℕ
  | some fd, job => ((c.states fd).getD []).count job
  | none, _ => 0

namespace Tables.Registered

variable {c : Tables} (hc : c.Registered)
include hc

theorem length_le (fd : ℕ) : (requests c.pollFds fd).length ≤ 1 := by
  rw [hc fd, List.length_map]
  cases c.states fd <;> simp

theorem register (fd : ℕ) (list : List Job) (given : List (Option ℕ × Job)) :
    Registered ⟨Function.update c.states fd (some list),
      pollRegisterFd c.pollFds fd (getOperationsForJobs list), given⟩ := by
  intro fd'
  rw [requests_pollRegisterFd (hc.length_le fd)]
  simp only [Function.update_apply]
  split_ifs
  · rfl
  · exact hc fd'

theorem remove (fd : ℕ) (given : List (Option ℕ × Job)) :
    Registered ⟨Function.update c.states fd none, pollRemoveFd c.pollFds fd, given⟩ := by
  intro fd'
  rw [requests_pollRemoveFd (hc.length_le fd)]
  simp only [Function.update_apply]
  split_ifs
  · rfl
  · exact hc fd'

end Tables.Registered

/-! ### A batch of updates -/

/-- The jobs in updates, each with its socket. -/
def pendingJobs (us : List Update) : List (Option ℕ × Job) :=
  us.filterMap fun u => match u with
    | .add fd job => some (some fd, job)
    | _ => none

theorem pendingJobs_append (us us' : List Update) :
    pendingJobs (us ++ us') = pendingJobs us ++ pendingJobs us' :=
  List.filterMap_append

/-- The removals in a batch come at the right time: a socket is removed only if it is not registered,
in a table or by an earlier update of the batch, and the current domain only if no `UPDATE_ADD`
follows. -/
def RemovalsOk (current : ℕ) : (ℕ → Bool) → List Update → Prop
  | _, [] => True
  | registered, .empty :: us => RemovalsOk current registered us
  | registered, .add fd _ :: us => RemovalsOk current (fun x => x = fd || registered x) us
  | registered, .removeSocket fd :: us =>
    registered fd = false ∧ RemovalsOk current registered us
  | registered, .removeDomain domain :: us =>
    (current = domain → pendingJobs us = []) ∧ RemovalsOk current registered us

instance decidableRemovalsOk (current : ℕ) :
    ∀ registered us, Decidable (RemovalsOk current registered us)
  | _, [] => .isTrue trivial
  | _, .empty :: us => decidableRemovalsOk current _ us
  | _, .add _ _ :: us => decidableRemovalsOk current _ us
  | registered, .removeSocket _ :: us =>
    have := decidableRemovalsOk current registered us
    inferInstanceAs (Decidable (_ ∧ RemovalsOk current registered us))
  | registered, .removeDomain _ :: us =>
    have := decidableRemovalsOk current registered us
    inferInstanceAs (Decidable ((_ → _) ∧ RemovalsOk current registered us))

theorem listed_add (c : Tables) (fd : ℕ) (job : Job) (x : Option ℕ × Job) :
    (c.add fd job).listed x.1 x.2 = c.listed x.1 x.2 + [(some fd, job)].count x := by
  obtain ⟨socket, job'⟩ := x
  cases socket with
  | none => simp [Tables.listed]
  | some fd' =>
    simp only [Tables.listed, Tables.add, Function.update_apply]
    split_ifs with hfd
    · subst hfd
      rw [Option.getD_some, List.count_append]
      simp [List.count_singleton]
    · simp [Ne.symm hfd]

/-- **A batch** whose removals come at the right time: its jobs go to the lists of their sockets. -/
theorem applyUpdates_spec (current : ℕ) {us : List Update} {cleared : Bool} {registered : ℕ → Bool}
    {c : Tables} (hc : c.Registered) (hreg : ∀ fd, registered fd = (c.states fd).isSome)
    (hcleared : cleared = true → pendingJobs us = []) (hok : RemovalsOk current registered us) :
    ∃ c', applyUpdates current cleared us c = (c', none) ∧ c'.Registered ∧ c'.given = c.given ∧
      ∀ x : Option ℕ × Job, c'.listed x.1 x.2 = c.listed x.1 x.2 + (pendingJobs us).count x := by
  induction us generalizing cleared registered c with
  | nil => exact ⟨c, rfl, hc, rfl, fun _ => rfl⟩
  | cons u us ih =>
    cases u with
    | empty => exact ih hc hreg hcleared hok
    | add fd job =>
      have hfalse : cleared = false := by
        rw [Bool.eq_false_iff]
        exact fun h => nomatch hcleared h
      subst hfalse
      have hcleared' : false = true → pendingJobs us = [] := fun h => Bool.noConfusion h
      have hreg' : ∀ x, (decide (x = fd) || registered x) = ((c.add fd job).states x).isSome := by
        intro x
        by_cases hx : x = fd
        · simp [Tables.add, hx]
        · simp [Tables.add, hx, hreg]
      obtain ⟨c', heq, hc', hgiven, hlisted⟩ := ih (c := c.add fd job)
        (hc.register fd _ c.given) hreg' hcleared' hok
      have hpending : pendingJobs (.add fd job :: us) = [(some fd, job)] ++ pendingJobs us := rfl
      refine ⟨c', heq, hc', hgiven, fun x => ?_⟩
      rw [hlisted, listed_add, hpending, List.count_append, Nat.add_assoc]
    | removeSocket fd =>
      have hnone : c.states fd = none := by
        rw [← Option.not_isSome_iff_eq_none, ← hreg, hok.1]
        exact Bool.false_ne_true
      rw [applyUpdates, hnone]
      exact ih hc hreg hcleared hok.2
    | removeDomain domain =>
      refine ih hc hreg (fun h => ?_) hok.2
      rcases Bool.or_eq_true_iff.1 h with h | h
      · exact hcleared h
      · exact hok.1 (beq_iff_eq.1 h)

/-! ### A callback -/

theorem count_getJobForEvent (list : List Job) (event : Operation) (job : Job) :
    (getJobForEvent list event).1.toList.count job + (getJobForEvent list event).2.count job =
      list.count job := by
  simp only [getJobForEvent]
  induction list with
  | nil => rfl
  | cons j list ih =>
    by_cases hj : j.operation = event
    · simp [hj, List.count_cons, Nat.add_comm]
    · simp only [List.find?_cons, List.eraseP_cons, hj, decide_false, Bool.cond_false,
        List.count_cons]
      omega

/-- The list has one job for each operation at most. -/
def AtMostOneEach (list : List Job) : Prop :=
  list.countP (·.operation = .eventIn) ≤ 1 ∧ list.countP (·.operation = .eventOut) ≤ 1

instance (list : List Job) : Decidable (AtMostOneEach list) := inferInstanceAs (Decidable (_ ∧ _))

theorem not_mem_eraseP {p : Job → Bool} {list : List Job} (h : list.countP p ≤ 1) :
    ∀ job ∈ list.eraseP p, ¬ p job = true := by
  induction list with
  | nil => exact fun _ h => (nomatch h)
  | cons j list ih =>
    by_cases hj : p j = true
    · rw [List.countP_cons_of_pos hj] at h
      rw [List.eraseP_cons_of_pos hj]
      exact fun job hmem hp => Nat.not_lt.2 h (Nat.succ_lt_succ (List.countP_pos_iff.2 ⟨job, hmem, hp⟩))
    · rw [List.countP_cons_of_neg hj] at h
      rw [List.eraseP_cons_of_neg hj, List.forall_mem_cons]
      exact ⟨hj, ih h⟩

theorem getJobForEvent_of_atMostOne {list : List Job} (h : AtMostOneEach list) :
    (getJobForEvent (getJobForEvent list .eventIn).2 .eventOut).2 = [] := by
  have hsub : (getJobForEvent list .eventIn).2.Sublist list := List.eraseP_sublist
  rw [List.eq_nil_iff_forall_not_mem]
  intro job hmem
  cases hop : job.operation with
  | eventIn =>
    have hmem' := List.eraseP_sublist.subset hmem
    exact not_mem_eraseP h.1 job hmem' (by simp [hop])
  | eventOut =>
    exact not_mem_eraseP (Nat.le_trans hsub.countP_le h.2) job hmem (by simp [hop])

/-- What a callback gives: the first job for each event. -/
def firstJobs (list : List Job) (events : Events) : List Job :=
  (if events.hasIn then (getJobForEvent list .eventIn).1 else none).toList ++
    (if events.hasOut then (getJobForEvent list .eventOut).1 else none).toList

/-- What it leaves. -/
def restJobs (list : List Job) (events : Events) : List Job :=
  let list := if events.hasIn then (getJobForEvent list .eventIn).2 else list
  if events.hasOut then (getJobForEvent list .eventOut).2 else list

theorem find?_getJobForEvent (list : List Job) {event event' : Operation} (h : event ≠ event') :
    (getJobForEvent list event).2.find? (·.operation = event') =
      list.find? (·.operation = event') := by
  simp only [getJobForEvent]
  induction list with
  | nil => rfl
  | cons j list ih =>
    by_cases hj : j.operation = event
    · simp [hj, h]
    · by_cases hj' : j.operation = event'
      · rw [List.eraseP_cons_of_neg (by simp [hj])]
        simp [hj']
      · rw [List.eraseP_cons_of_neg (by simp [hj])]
        simp [hj', ih]

theorem count_firstJobs (list : List Job) (events : Events) (job : Job) :
    (firstJobs list events).count job + (restJobs list events).count job = list.count job := by
  have hin := count_getJobForEvent list .eventIn job
  have hboth := count_getJobForEvent (getJobForEvent list .eventIn).2 .eventOut job
  have hout := count_getJobForEvent list .eventOut job
  have hfind : (getJobForEvent (getJobForEvent list .eventIn).2 .eventOut).1 =
      (getJobForEvent list .eventOut).1 := find?_getJobForEvent list nofun
  rw [hfind] at hboth
  rw [firstJobs, restJobs, List.count_append]
  cases events.hasIn <;> cases events.hasOut
  all_goals
    simp only [Bool.false_eq_true, if_true, if_false, Option.toList_none, List.count_nil]
    omega

/-- **A callback** for a registered socket gives the first job for each event, and keeps the others
unless the socket has an error. -/
theorem waitCallback_eq {c : Tables} {fd : ℕ} {list : List Job} (hlist : c.states fd = some list)
    (events : Events) : waitCallback c fd events =
      (⟨Function.update c.states fd (if events.hasErr then none else some (restJobs list events)),
        if events.hasErr then pollRemoveFd c.pollFds fd
        else pollRegisterFd c.pollFds fd (getOperationsForJobs (restJobs list events)),
        c.given ++ (firstJobs list events).map (some fd, ·)⟩, false) := by
  have hfind : (getJobForEvent (getJobForEvent list .eventIn).2 .eventOut).1 =
      (getJobForEvent list .eventOut).1 := find?_getJobForEvent list nofun
  simp only [waitCallback, hlist, Tables.give, firstJobs, restJobs]
  cases events.hasIn <;> cases events.hasOut <;> cases events.hasErr <;> simp [hfind]

theorem count_map_socket (fd : ℕ) (jobs : List Job) (x : Option ℕ × Job) :
    (jobs.map (some fd, ·)).count x = if x.1 = some fd then jobs.count x.2 else 0 := by
  obtain ⟨socket, job⟩ := x
  induction jobs with
  | nil => simp
  | cons j jobs ih =>
    rw [List.map_cons, List.count_cons, ih, List.count_cons]
    rcases eq_or_ne socket (some fd) with rfl | hfd
    · simp
    · simp [hfd, hfd.symm]

theorem events_of_hasErr {r : PollFlags} (h : r.events.hasErr = true) :
    r.events.hasIn = true ∧ r.events.hasOut = true := by
  simp only [PollFlags.events, Bool.or_eq_true] at h ⊢
  rcases h with (h | h) | h <;> simp [h]

theorem restJobs_of_atMostOne {list : List Job} (h : AtMostOneEach list) {events : Events}
    (hin : events.hasIn = true) (hout : events.hasOut = true) : restJobs list events = [] := by
  rw [restJobs, hin, hout]
  exact getJobForEvent_of_atMostOne h

/-! ### Runs -/

/-- The jobs that were handed over are in updates, in the lists or given, as often as they were
handed over. -/
def Accounted (s : State) : Prop :=
  ∀ x : Option ℕ × Job, s.handed.count x =
    (pendingJobs s.updates).count x + s.tables.listed x.1 x.2 + s.tables.given.count x

/-- The steps that lose no job: the socket of a handle is not NULL, removals come at the right time,
a socket with an error has one job for each operation at most, and the selector goes on. -/
def Condition (current : ℕ) (s : State) : Label → Prop
  | .add socket _ => socket ≠ none
  | .apply => RemovalsOk current (fun fd => (s.tables.states fd).isSome) s.updates
  | .callback =>
    match s.phase with
    | .dispatching ((fd, events) :: _) =>
      events.hasErr = true → AtMostOneEach ((s.tables.states fd).getD [])
    | _ => True
  | .pollFailed | .shutDown => False
  | .removeSocket _ | .removeDomain _ | .start | .poll _ | .loop => True

/-- What holds between steps that meet the condition. -/
structure Inv (s : State) : Prop where
  accounted : Accounted s
  registered : s.tables.Registered
  /-- The callbacks that are left are for different sockets that have lists. -/
  ready : ∀ ready, s.phase = .dispatching ready → (ready.map Prod.fst).Nodup ∧
    ∀ x ∈ ready, (s.tables.states x.1).isSome = true ∧ ∃ r : PollFlags, x.2 = r.events
  shuttingDown : s.shuttingDown = false
  running : s.phase ≠ .exited ∧ s.phase ≠ .crashed

theorem inv_initial : Inv initial := by
  refine ⟨fun x => ?_, fun _ => rfl, nofun, rfl, nofun, nofun⟩
  obtain ⟨socket, job⟩ := x
  cases socket <;> rfl

theorem Inv.request {s : State} (hi : Inv s) (initialized : Bool) (us : List Update) :
    Inv { s with
      initialized := initialized
      updates := s.updates ++ us
      handed := s.handed ++ pendingJobs us } := by
  refine ⟨fun x => ?_, hi.registered, hi.ready, hi.shuttingDown, hi.running⟩
  have hold := hi.accounted x
  simp only [pendingJobs_append, List.count_append]
  omega

theorem count_readyOf_le (pollFds : List PollRequest) (revents : ℕ → PollFlags) (fd : ℕ) :
    ((readyOf pollFds revents).map Prod.fst).count fd ≤ (requests pollFds fd).length := by
  induction pollFds with
  | nil => exact Nat.le_refl _
  | cons r rs ih =>
    rw [requests_cons, List.length_append]
    -- what the first entry adds
    obtain ⟨new, hnew, hcount⟩ : ∃ new, readyOf (r :: rs) revents = new ++ readyOf rs revents ∧
        (new.map Prod.fst).count fd ≤ (if r.fd = some fd then [r.events] else []).length := by
      rw [readyOf, List.filterMap_cons]
      obtain ⟨fd', events⟩ := r
      cases fd' with
      | none => exact ⟨[], rfl, Nat.zero_le _⟩
      | some fd' =>
        by_cases hany : (revents fd').any = true
        · refine ⟨[(fd', (revents fd').events)], ?_, ?_⟩
          · simp only [Option.bind_eq_bind, Option.bind_some, hany, if_true]
            rfl
          · rcases eq_or_ne fd' fd with rfl | hfd
            · simp
            · simp [hfd]
        · refine ⟨[], ?_, Nat.zero_le _⟩
          simp only [Option.bind_eq_bind, Option.bind_some, hany]
          rfl
    rw [hnew, List.map_append, List.count_append]
    omega

theorem Tables.Registered.ready {c : Tables} (hc : c.Registered) (revents : ℕ → PollFlags) :
    ((readyOf c.pollFds revents).map Prod.fst).Nodup ∧ ∀ x ∈ readyOf c.pollFds revents,
      (c.states x.1).isSome = true ∧ ∃ r : PollFlags, x.2 = r.events := by
  refine ⟨List.nodup_iff_count_le_one.2 fun fd =>
    Nat.le_trans (count_readyOf_le ..) (hc.length_le fd), fun x hx => ?_⟩
  obtain ⟨r, hr, hx⟩ := List.mem_filterMap.1 hx
  obtain ⟨fd, hfd, hx⟩ := Option.bind_eq_some_iff.1 hx
  obtain ⟨-, ⟨⟩⟩ := Option.ite_none_right_eq_some.1 hx
  refine ⟨?_, revents fd, rfl⟩
  have hmem : r.events ∈ requests c.pollFds fd :=
    List.mem_filterMap.2 ⟨r, hr, if_pos hfd⟩
  rw [hc fd] at hmem
  cases hst : c.states fd with
  | none => simp [hst] at hmem
  | some list => rfl

theorem Inv.callback {s s' : State} (hi : Inv s) {current : ℕ}
    (hcond : Condition current s .callback) (hst : step current s .callback = some s') :
    Inv s' := by
  simp only [IOSelector.step] at hst
  split at hst
  · rename_i fd events ready hphase
    rw [if_neg (by simp [hi.shuttingDown])] at hst
    obtain ⟨hnodup, hready⟩ := hi.ready _ hphase
    rw [List.map_cons, List.nodup_cons] at hnodup
    obtain ⟨hsome, r, hr⟩ := hready (fd, events) List.mem_cons_self
    obtain ⟨list, hlist⟩ := Option.isSome_iff_exists.1 hsome
    rw [waitCallback_eq hlist] at hst
    cases hst
    simp only [Condition, hphase, hlist, Option.getD_some] at hcond
    refine ⟨fun x => ?_, ?_, ?_, hi.shuttingDown, by simp, by simp⟩
    · have hold := hi.accounted x
      obtain ⟨socket, job⟩ := x
      have hfirst := count_firstJobs list events job
      rw [List.count_append, count_map_socket]
      rcases eq_or_ne socket (some fd) with rfl | hfd
      · simp only [Tables.listed, hlist, Function.update_self, Option.getD_some] at hold ⊢
        rw [if_pos trivial]
        cases herr : events.hasErr with
        | true =>
          obtain rfl : events = r.events := hr
          obtain ⟨hin, hout⟩ := events_of_hasErr herr
          rw [restJobs_of_atMostOne (hcond herr) hin hout] at hfirst
          simp only [if_true, Option.getD_none, List.count_nil] at hfirst ⊢
          omega
        | false =>
          simp only [Bool.false_eq_true, if_false, Option.getD_some]
          omega
      · have hlisted : Tables.listed ⟨Function.update s.tables.states fd
            (if events.hasErr then none else some (restJobs list events)), [], []⟩ socket job =
            s.tables.listed socket job := by
          cases socket with
          | none => rfl
          | some fd' =>
            have hne : fd' ≠ fd := fun h => hfd (congrArg some h)
            simp only [Tables.listed, Function.update_of_ne hne]
        rw [if_neg hfd]
        exact hold.trans (congrArg (_ + · + _) hlisted.symm)
    · cases events.hasErr
      · exact hi.registered.register fd _ _
      · exact hi.registered.remove fd _
    · rintro ready' ⟨⟩
      refine ⟨hnodup.2, fun x hx => ?_⟩
      obtain ⟨hsome', hr'⟩ := hready x (List.mem_cons_of_mem _ hx)
      refine ⟨?_, hr'⟩
      have hne : x.1 ≠ fd := by
        rintro rfl
        exact hnodup.1 (List.mem_map.2 ⟨x, hx, rfl⟩)
      simpa [hne] using hsome'
  · cases hst

theorem Inv.step {current : ℕ} {s s' : State} {l : Label} (hi : Inv s)
    (hcond : Condition current s l) (hst : step current s l = some s') : Inv s' := by
  have hrunning : ¬ s.shuttingDown = true := Bool.eq_false_iff.1 hi.shuttingDown
  cases l with
  | add socket job =>
    obtain ⟨fd, rfl⟩ := Option.ne_none_iff_exists'.1 hcond
    rw [IOSelector.step, if_neg hrunning] at hst
    obtain ⟨-, ⟨⟩⟩ := Option.ite_none_right_eq_some.1 hst
    exact hi.request true [.add fd job]
  | removeSocket fd =>
    have hrequest := hi.request s.initialized [.removeSocket fd]
    rw [show pendingJobs [.removeSocket fd] = [] from rfl, List.append_nil] at hrequest
    simp only [IOSelector.step] at hst
    split_ifs at hst
    · cases hst
      exact hi
    · cases hst
      exact hrequest
  | removeDomain domain =>
    have hrequest := hi.request s.initialized [.removeDomain domain]
    rw [show pendingJobs [.removeDomain domain] = [] from rfl, List.append_nil] at hrequest
    simp only [IOSelector.step] at hst
    split_ifs at hst
    · cases hst
      exact hi
    · cases hst
      exact hrequest
  | start =>
    rw [IOSelector.step] at hst
    obtain ⟨-, hst⟩ := Option.ite_none_right_eq_some.1 hst
    rw [if_neg hrunning] at hst
    cases hst
    exact ⟨hi.accounted, hi.registered, nofun, hi.shuttingDown, nofun, nofun⟩
  | apply =>
    simp only [IOSelector.step] at hst
    obtain ⟨-, hst⟩ := Option.ite_none_right_eq_some.1 hst
    have hcleared : false = true → pendingJobs s.updates = [] := fun h => Bool.noConfusion h
    obtain ⟨c', heq, hc', hgiven, hlisted⟩ :=
      applyUpdates_spec current hi.registered (fun _ => rfl) hcleared hcond
    rw [heq] at hst
    cases hst
    refine ⟨fun x => ?_, hc', nofun, hi.shuttingDown, nofun, nofun⟩
    have hold := hi.accounted x
    have hnew := hlisted x
    rw [hgiven]
    simp only [pendingJobs, List.filterMap_nil, List.count_nil]
    omega
  | poll revents =>
    simp only [IOSelector.step] at hst
    obtain ⟨-, ⟨⟩⟩ := Option.ite_none_right_eq_some.1 hst
    refine ⟨hi.accounted, hi.registered, ?_, hi.shuttingDown, nofun, nofun⟩
    rintro ready ⟨⟩
    exact hi.registered.ready revents
  | pollFailed => exact hcond.elim
  | callback => exact hi.callback hcond hst
  | loop =>
    rw [IOSelector.step] at hst
    obtain ⟨-, hst⟩ := Option.ite_none_right_eq_some.1 hst
    rw [if_neg hrunning] at hst
    cases hst
    exact ⟨hi.accounted, hi.registered, nofun, hi.shuttingDown, nofun, nofun⟩
  | shutDown => exact hcond.elim

instance (current : ℕ) (s : State) (l : Label) : Decidable (Condition current s l) :=
  match l with
  | .add socket _ => inferInstanceAs (Decidable (socket ≠ none))
  | .apply => inferInstanceAs (Decidable (RemovalsOk ..))
  | .callback =>
    match h : s.phase with
    | .dispatching ((fd, events) :: _) =>
      decidable_of_iff (events.hasErr = true → AtMostOneEach ((s.tables.states fd).getD []))
        (by simp [Condition, h])
    | .dispatching [] | .starting | .applying | .polling | .exited | .crashed =>
      .isTrue (by simp [Condition, h])
  | .pollFailed | .shutDown => .isFalse id
  | .removeSocket _ | .removeDomain _ | .start | .poll _ | .loop => .isTrue trivial

/-- **No job is lost**, in any run whose steps meet the condition:

* each job that was handed to the selector is, as often as it was handed over, in an update, in the
  list of its socket or given to the thread pool;
* the selector goes on, and `poll` waits on each socket for the operations of its jobs;
* a callback gives the first job of the socket for each event, and on an error all its jobs. -/
theorem selector_accounts {current : ℕ} {s : State}
    (h : (lts current).ReachWith (Condition current) initial s) :
    Accounted s ∧ s.phase ≠ .exited ∧ s.phase ≠ .crashed ∧
    (∀ fd list, s.tables.states fd = some list →
      requests s.tables.pollFds fd = [getOperationsForJobs list]) ∧
    ∀ fd events ready, s.phase = .dispatching ((fd, events) :: ready) →
      Condition current s .callback → ∃ list s', s.tables.states fd = some list ∧
        step current s .callback = some s' ∧
        s'.tables.given = s.tables.given ++ (firstJobs list events).map (some fd, ·) ∧
        (events.hasErr = true → (firstJobs list events).Perm list) := by
  have hi : Inv s := h.invariant inv_initial fun _ _ _ hi hcond hst => hi.step hcond hst
  refine ⟨hi.accounted, hi.running.1, hi.running.2, fun fd list hlist => ?_,
    fun fd events ready hphase hcond => ?_⟩
  · rw [hi.registered fd, hlist]
    rfl
  · obtain ⟨hsome, r, hr⟩ := (hi.ready _ hphase).2 (fd, events) List.mem_cons_self
    obtain ⟨list, hlist⟩ := Option.isSome_iff_exists.1 hsome
    obtain ⟨s', hst⟩ : ∃ s', step current s .callback = some s' := by
      simp only [step, hphase]
      rw [if_neg (by simp [hi.shuttingDown])]
      exact ⟨_, rfl⟩
    refine ⟨list, s', hlist, hst, ?_, fun herr => ?_⟩
    · simp only [step, hphase] at hst
      rw [if_neg (by simp [hi.shuttingDown]), waitCallback_eq hlist] at hst
      cases hst
      rfl
    · obtain rfl : events = r.events := hr
      obtain ⟨hin, hout⟩ := events_of_hasErr herr
      simp only [Condition, hphase, hlist, Option.getD_some] at hcond
      refine List.perm_iff_count.2 fun job => ?_
      have hfirst := count_firstJobs list r.events job
      rwa [restJobs_of_atMostOne (hcond herr) hin hout, List.count_nil, Nat.add_zero] at hfirst

/-- Two jobs are handed over for a socket, which hangs up. -/
def hangUpRun : List Label :=
  [.add (some 3) ⟨1, .eventIn⟩, .start, .apply, .poll fun _ => ⟨false, false, false, false, false⟩,
    .add (some 3) ⟨2, .eventOut⟩, .loop, .apply,
    .poll fun _ => ⟨false, false, false, true, false⟩]

/-- Its callback gives both jobs. -/
theorem selector_accounts_hangUp : ∃ s s', s.handed = [(some 3, ⟨1, .eventIn⟩),
      (some 3, ⟨2, .eventOut⟩)] ∧ Accounted s ∧ step 0 s .callback = some s' ∧
    s'.tables.given = [(some 3, ⟨1, .eventIn⟩), (some 3, ⟨2, .eventOut⟩)] := by
  obtain ⟨s, hs, hhanded, hphase, hstates, hgiven⟩ := LTS.exists_reachWith (f := step 0)
    (G := Condition 0) (i := initial) hangUpRun
    (fun s => s.handed = [(some 3, ⟨1, .eventIn⟩), (some 3, ⟨2, .eventOut⟩)] ∧
      s.phase = .dispatching [(3, ⟨true, true, true⟩)] ∧
      s.tables.states 3 = some [⟨1, .eventIn⟩, ⟨2, .eventOut⟩] ∧ s.tables.given = []) (by decide)
  obtain ⟨haccounted, -, -, -, hcallback⟩ := selector_accounts hs
  obtain ⟨list, s', hlist, hst, hgiven', -⟩ := hcallback 3 _ [] hphase
    (by simp only [Condition, hphase, hstates]; decide)
  cases hstates.symm.trans hlist
  exact ⟨s, s', hhanded, haccounted, hst, by rw [hgiven', hgiven]; rfl⟩

/-! ### A socket that is removed -/

/-- A job is handed over, and then its socket is removed. -/
def removeRun : List Label :=
  [.add (some 3) ⟨1, .eventIn⟩, .start, .apply, .removeSocket 3,
    .poll fun _ => ⟨false, false, false, false, false⟩, .loop, .apply]

/-- **The job is lost**: the selector crashes, and nobody has it. -/
theorem removed_socket : ∃ s, (lts 0).Reachable initial s ∧ s.phase = .crashed ∧
    ¬ Accounted s := by
  obtain ⟨s, hs, hphase, hhanded, hpending, hlisted, hgiven⟩ := LTS.exists_reachWith (f := step 0)
    (G := fun _ _ => True) (i := initial) removeRun
    (fun s => s.phase = .crashed ∧ s.handed = [(some 3, ⟨1, .eventIn⟩)] ∧
      pendingJobs s.updates = [] ∧ s.tables.listed (some 3) ⟨1, .eventIn⟩ = 0 ∧
      s.tables.given = []) (by decide)
  refine ⟨s, hs, hphase, fun haccounted => ?_⟩
  have hjob := haccounted (some 3, ⟨1, .eventIn⟩)
  rw [hhanded, hpending, hlisted, hgiven] at hjob
  exact absurd hjob (by decide)

end IOSelector

end Il2Cpp
