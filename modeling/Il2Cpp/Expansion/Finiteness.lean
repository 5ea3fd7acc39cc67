import Il2Cpp.Expansion.System

/-!
# When generic expansion is finite

The depth guard of `GenericMetadata::Inflate` bounds what is left of an instantiation when arrays
and pointers are forgotten, so these are finitely many.  What arrays and pointers contain grows only
along the flows of arguments.

* `exists_larger` : along an expanding cycle an argument becomes arbitrarily large.
* `heightLe_of_reaches` : the height of an argument is bounded by the growing flows that lead to it.
* `generic_expansion` : finitely many methods and classes are created exactly if nothing expands.
* `arrayExpansion_infinite` : a method that requests itself for arrays of its argument.
-/

namespace Il2Cpp

namespace Expansion

variable {M H P : Type} {md : Definitions M H P} {maximumDepth : ℕ}
  {start s t B r : Instantiation M H P}

theorem arg_of_step (h : (md.lts maximumDepth).step s r t) (j : Slot) :
    t.arg j = (r.arg j).map (Il2CppType.subst (s.subst md.num)) := by
  obtain ⟨rfl, -⟩ := inflate_eq_some h.2
  exact r.arg_map _ j

/-! ### Expanding cycles -/

theorem Goes.larger {i j : Slot} {grows : Bool} {a : Il2CppType H P}
    (hg : Goes md.num r i grows j) (ht : (md.lts maximumDepth).step s r t)
    (ha : s.arg i = some a) :
    ∃ b, t.arg j = some b ∧ a.sortKey.length + grows.toNat ≤ b.sortKey.length := by
  obtain ⟨u, path, e, q, hu, hocc, hq, rfl, rfl⟩ := hg
  refine ⟨u.subst (s.subst md.num), by rw [arg_of_step ht, hu, Option.map_some], ?_⟩
  have hpart := Il2CppType.length_sortKey_occurrence
    (Il2CppType.occurrence_subst (s.subst md.num) hocc)
  rw [Il2CppType.subst_of_parameter hq, s.get_subst, ha, Option.map_some, Option.getD_some,
    Il2CppType.length_sortKey_withByref] at hpart
  cases path with
  | nil => simpa using hpart
  | cons step path =>
    rw [List.length_cons] at hpart
    simp only [List.isEmpty_cons, Bool.not_false, Bool.toNat_true]
    omega

theorem exists_larger {u v : Instantiation M H P × Slot} {n : ℕ}
    (hw : Walk (md.Flow maximumDepth) u n v) (hs : md.Reaches maximumDepth start s)
    (hB : s.blank = u.1) {a : Il2CppType H P} (ha : s.arg u.2 = some a) :
    ∃ t b, md.Reaches maximumDepth start t ∧ t.blank = v.1 ∧ t.arg v.2 = some b ∧
      a.sortKey.length + n ≤ b.sortKey.length := by
  induction hw generalizing s a with
  | nil u => exact ⟨s, a, hs, hB, ha, le_rfl⟩
  | cons he _ ih =>
    obtain ⟨r, hstep, hgoes⟩ := he
    rw [← hB] at hstep
    obtain ⟨t, ht, hblank⟩ := exists_step_of_blank hstep
    obtain ⟨b, hb, hle⟩ := hgoes.larger ht ha
    obtain ⟨t', b', hreach, hblank', hb', hle'⟩ := ih (.step hs trivial ht) hblank hb
    exact ⟨t', b', hreach, hblank', hb', by omega⟩

theorem exists_arg_of_flow {u v : Instantiation M H P × Slot} {grows : Bool}
    (h : md.Flow maximumDepth u grows v) : ∃ a, v.1.arg v.2 = some a := by
  obtain ⟨r, ⟨-, hstep⟩, t, -, -, -, ht, -⟩ := h
  obtain ⟨s', hs', hblank⟩ := Option.map_eq_some_iff.1 hstep
  obtain ⟨rfl, -⟩ := inflate_eq_some hs'
  rw [← hblank, Instantiation.blank, Instantiation.arg_map, Instantiation.arg_map, ht]
  exact ⟨_, rfl⟩

theorem exists_arg_of_walk {u v : Instantiation M H P × Slot} {n : ℕ}
    (h : Walk (md.Flow maximumDepth) u n v) (hn : 0 < n) : ∃ a, v.1.arg v.2 = some a := by
  have hcases : n = 0 ∧ u = v ∨ ∃ a, v.1.arg v.2 = some a := by
    clear hn
    induction h with
    | nil => exact .inl ⟨rfl, rfl⟩
    | cons he _ ih =>
      rcases ih with ⟨-, rfl⟩ | ih
      · exact .inr (exists_arg_of_flow he)
      · exact .inr ih
  exact hcases.resolve_left fun h => hn.ne' h.1

/-- The size of a generic method. -/
def keySize (k : InflatedMethod M H P) : ℕ :=
  ((k.classInst.getD [] ++ k.methodInst.getD []).map List.length).sum

theorem length_le_keySize {a : Il2CppType H P} (h : a ∈ s.args) :
    a.sortKey.length ≤ keySize s.key := by
  have hkeys : s.key.classInst.getD [] ++ s.key.methodInst.getD [] =
      s.args.map Il2CppType.sortKey := by
    obtain ⟨m, ci, mi⟩ := s
    cases ci <;> cases mi <;> simp [Instantiation.key, Instantiation.args]
  rw [keySize, hkeys, List.map_map]
  exact List.single_le_sum (fun _ _ => Nat.zero_le _) _ (List.mem_map_of_mem h)

/-- **An expanding cycle creates infinitely many methods.** -/
theorem infinite_of_expands (h : md.Expands maximumDepth start) :
    ¬ (md.createdMethods maximumDepth start).Finite := by
  intro hfinite
  obtain ⟨bound, hbound⟩ := (hfinite.image keySize).bddAbove
  obtain ⟨B, hB, i, n, hn, hw⟩ := h
  obtain ⟨s, hs, rfl⟩ := exists_of_blank_reachable hB
  have hlarge (k : ℕ) : ∃ t a, md.Reaches maximumDepth start t ∧ t.blank = s.blank ∧
      t.arg i = some a ∧ k ≤ a.sortKey.length := by
    induction k with
    | zero =>
      obtain ⟨a, ha⟩ := exists_arg_of_walk hw hn
      rw [Instantiation.blank, Instantiation.arg_map] at ha
      obtain ⟨b, hb, -⟩ := Option.map_eq_some_iff.1 ha
      exact ⟨s, b, hs, rfl, hb, Nat.zero_le _⟩
    | succ k ih =>
      obtain ⟨t, a, ht, hblank, ha, hle⟩ := ih
      obtain ⟨t', a', ht', hblank', ha', hle'⟩ := exists_larger hw ht hblank ha
      exact ⟨t', a', ht', hblank', ha', by omega⟩
  obtain ⟨t, a, ht, -, ha, hle⟩ := hlarge (bound + 1)
  have hsize : keySize t.key ≤ bound := hbound ⟨t.key, ⟨t, ht, rfl⟩, rfl⟩
  have := length_le_keySize (Instantiation.mem_args.2 ⟨i, ha⟩)
  omega

/-! ### Finitely many shapes -/

/-- The instantiations that all others are made of: the first one, and all requests. -/
def Definitions.sources (md : Definitions M H P) (start : Instantiation M H P) :
    Set (Instantiation M H P) :=
  insert start (⋃ m, {r | r ∈ md.requests m})

theorem finite_sources [Finite M] (md : Definitions M H P) (start : Instantiation M H P) :
    (md.sources start).Finite :=
  (Set.finite_iUnion fun m => (md.requests m).finite_toSet).insert start

theorem start_mem_sources : start ∈ md.sources start := Set.mem_insert _ _

theorem request_mem_sources (h : (md.lts maximumDepth).step s r t) : r ∈ md.sources start :=
  Set.mem_insert_of_mem _ (Set.mem_iUnion.2 ⟨_, h.1⟩)

/-- The same method with as many arguments. -/
structure Framed (r s : Instantiation M H P) : Prop where
  methodDefinition : s.methodDefinition = r.methodDefinition
  classInst : s.classInst.map List.length = r.classInst.map List.length
  methodInst : s.methodInst.map List.length = r.methodInst.map List.length

theorem Framed.map (h : Framed r s) (f : Il2CppType H P → Il2CppType H P) :
    Framed r (s.map f) := by
  obtain ⟨hm, hci, hmi⟩ := h
  have hlength : List.length ∘ List.map f = List.length := funext fun l => List.length_map f
  refine ⟨hm, ?_, ?_⟩
  · rw [Instantiation.map, Option.map_map, hlength, hci]
  · rw [Instantiation.map, Option.map_map, hlength, hmi]

theorem exists_framed (h : md.Reaches maximumDepth start s) :
    ∃ r ∈ md.sources start, Framed r s := by
  cases h with
  | init => exact ⟨start, start_mem_sources, rfl, rfl, rfl⟩
  | @step s' _ r _ _ hst =>
    refine ⟨r, request_mem_sources hst, ?_⟩
    obtain ⟨rfl, -⟩ := inflate_eq_some hst.2
    exact Framed.map ⟨rfl, rfl, rfl⟩ _

theorem finite_insts {T : Set (Il2CppType H P)} (hT : T.Finite)
    (inst : Option (List (Il2CppType H P))) :
    {i : Option (List (Il2CppType H P)) | i.map List.length = inst.map List.length ∧
      ∀ a ∈ i.getD [], a ∈ T}.Finite := by
  refine (((finite_lists hT (inst.getD []).length).image some).insert none).subset ?_
  rintro (- | i) ⟨hlength, hmem⟩
  · exact Set.mem_insert _ _
  · cases inst with
    | none => cases hlength
    | some inst => exact .inr ⟨i, ⟨Option.some.inj hlength, hmem⟩, rfl⟩

theorem finite_of_args {R : Set (Instantiation M H P)} (hR : R.Finite)
    {T : Set (Il2CppType H P)} (hT : T.Finite) :
    {s : Instantiation M H P | (∃ r ∈ R, Framed r s) ∧ ∀ a ∈ s.args, a ∈ T}.Finite := by
  refine (hR.biUnion fun r _ => ((finite_insts hT r.classInst).prod
    (finite_insts hT r.methodInst)).image fun p => (⟨r.methodDefinition, p.1, p.2⟩ :
      Instantiation M H P)).subset ?_
  rintro ⟨m, ci, mi⟩ ⟨⟨r, hr, hm, hci, hmi⟩, hargs⟩
  obtain rfl : m = r.methodDefinition := hm
  refine Set.mem_biUnion hr ⟨(ci, mi), ⟨⟨hci, fun a ha => ?_⟩, hmi, fun a ha => ?_⟩, rfl⟩
  · exact hargs a (List.mem_append_left _ ha)
  · exact hargs a (List.mem_append_right _ ha)

theorem finite_sourceArgs [Finite M] (md : Definitions M H P) (start : Instantiation M H P) :
    {a | ∃ r ∈ md.sources start, a ∈ r.args}.Finite := by
  refine ((finite_sources md start).biUnion fun r _ => r.args.finite_toSet).subset ?_
  rintro a ⟨r, hr, ha⟩
  exact Set.mem_biUnion hr ha

theorem over_of_reaches {shapes : Set (Il2CppType H P)}
    (hover : ∀ r ∈ md.sources start, ∀ a ∈ r.args, a.Over shapes)
    (h : md.Reaches maximumDepth start s) : ∀ a ∈ s.args, a.Over shapes := by
  induction h with
  | init => exact hover start start_mem_sources
  | @step s t r _ _ hst ih =>
    intro a ha
    obtain ⟨j, hj⟩ := Instantiation.mem_args.1 ha
    rw [arg_of_step hst] at hj
    obtain ⟨u, hu, rfl⟩ := Option.map_eq_some_iff.1 hj
    refine (hover r (request_mem_sources hst) u (Instantiation.mem_args.2 ⟨j, hu⟩)).subst ?_
    intro q b hb
    rw [s.get_subst] at hb
    exact ih b (Instantiation.mem_args.2 ⟨_, hb⟩)

theorem depth_le_of_shallow (h : Shallow maximumDepth s) {a : Il2CppType H P} (ha : a ∈ s.args) :
    Il2CppType.recursiveGenericDepthFor a ≤ maximumDepth := by
  have hinst {inst : Option (List (Il2CppType H P))} (hdepth : Il2CppType.instDepth inst ≤
      maximumDepth) (ha : a ∈ inst.getD []) :
      Il2CppType.recursiveGenericDepthFor a ≤ maximumDepth := by
    cases inst with
    | none => cases ha
    | some i =>
      have ha : a ∈ i := ha
      have := Il2CppType.recursiveGenericDepthFor_le_maximumDepth ha
      simp only [Il2CppType.instDepth, Option.elim_some] at hdepth
      omega
  rcases List.mem_append.1 ha with ha | ha
  · exact hinst h.1 ha
  · exact hinst h.2 ha

theorem exists_depth (md : Definitions M H P) (maximumDepth : ℕ) (start : Instantiation M H P) :
    ∃ n, ∀ s, md.Reaches maximumDepth start s → ∀ a ∈ s.args,
      Il2CppType.recursiveGenericDepthFor a ≤ n := by
  refine ⟨max maximumDepth (Il2CppType.maximumDepth start.args), fun s hs a ha => ?_⟩
  cases hs with
  | init =>
    exact (Il2CppType.recursiveGenericDepthFor_le_maximumDepth ha).trans (le_max_right _ _)
  | step _ _ hst =>
    exact (depth_le_of_shallow (inflate_eq_some hst.2).2 ha).trans (le_max_left _ _)

/-- **What is left of the instantiations** without the contents of arrays and pointers is finite. -/
theorem finite_blank [Finite M] (md : Definitions M H P) (maximumDepth : ℕ)
    (start : Instantiation M H P) :
    {B | (md.blankLts maximumDepth).Reachable start.blank B}.Finite := by
  obtain ⟨shapes, hshapes, hover⟩ :=
    Il2CppType.exists_over_of_finite (finite_sourceArgs md start) fun a _ => a.exists_over
  have hshapes : (insert (.simple false .end) shapes : Set (Il2CppType H P)).Finite :=
    hshapes.insert _
  obtain ⟨n, hn⟩ := exists_depth md maximumDepth start
  refine (finite_of_args (finite_sources md start)
    (Il2CppType.finite_heightLe hshapes n)).subset ?_
  intro B hB
  obtain ⟨s, hs, rfl⟩ := exists_of_blank_reachable hB
  obtain ⟨r, hr, hframed⟩ := exists_framed hs
  refine ⟨⟨r, hr, hframed.map _⟩, fun b hb => ?_⟩
  obtain ⟨i, hi⟩ := Instantiation.mem_args.1 hb
  rw [Instantiation.blank, Instantiation.arg_map] at hi
  obtain ⟨a, ha, rfl⟩ := Option.map_eq_some_iff.1 hi
  have ha : a ∈ s.args := Instantiation.mem_args.2 ⟨i, ha⟩
  have hover : a.Over shapes :=
    over_of_reaches (fun r hr a ha => hover a ⟨r, hr, ha⟩) hs a ha
  exact ⟨Il2CppType.heightLe_blank (hn s hs a ha), hover.blank⟩

/-! ### The growth of arguments -/

/-- The arguments of what is left of the instantiations. -/
def Definitions.vertices (md : Definitions M H P) (maximumDepth : ℕ)
    (start : Instantiation M H P) : Set (Instantiation M H P × Slot) :=
  {v | (md.blankLts maximumDepth).Reachable start.blank v.1 ∧ ∃ a, v.1.arg v.2 = some a}

theorem finite_slots (s : Instantiation M H P) : {i | ∃ a, s.arg i = some a}.Finite := by
  refine (((Set.finite_lt_nat (s.classInst.getD []).length).image Slot.cls).union
    ((Set.finite_lt_nat (s.methodInst.getD []).length).image Slot.mth)).subset ?_
  have hlt {inst : Option (List (Il2CppType H P))} {n : ℕ} {a : Il2CppType H P}
      (h : (inst.bind fun i => i[n]?) = some a) : n < (inst.getD []).length := by
    obtain ⟨i, rfl, h⟩ := Option.bind_eq_some_iff.1 h
    exact (List.getElem?_eq_some_iff.1 h).1
  rintro (n | n) ⟨a, ha⟩
  · exact .inl ⟨n, hlt ha, rfl⟩
  · exact .inr ⟨n, hlt ha, rfl⟩

theorem finite_vertices [Finite M] : (md.vertices maximumDepth start).Finite := by
  refine ((finite_blank md maximumDepth start).biUnion fun B _ =>
    (finite_slots B).image fun i => (B, i)).subset ?_
  rintro ⟨B, i⟩ ⟨hB, ha⟩
  exact Set.mem_biUnion hB ⟨i, ha, rfl⟩

theorem vertices_closed {u v : Instantiation M H P × Slot} {grows : Bool}
    (hu : u ∈ md.vertices maximumDepth start) (h : md.Flow maximumDepth u grows v) :
    v ∈ md.vertices maximumDepth start := by
  refine ⟨?_, exists_arg_of_flow h⟩
  obtain ⟨r, hst, -⟩ := h
  exact .step hu.1 trivial hst

theorem mem_vertices {i : Slot} {a : Il2CppType H P} (hs : md.Reaches maximumDepth start s)
    (ha : s.arg i = some a) : (s.blank, i) ∈ md.vertices maximumDepth start := by
  refine ⟨blank_reachable hs, a.blank, ?_⟩
  rw [Instantiation.blank, Instantiation.arg_map, ha, Option.map_some]

/-- The growing flows that lead to an argument are at most `k`. -/
def FlowsLe (md : Definitions M H P) (maximumDepth : ℕ) (start s : Instantiation M H P) (j : Slot)
    (k : ℕ) : Prop :=
  ∀ u ∈ md.vertices maximumDepth start, ∀ n, Walk (md.Flow maximumDepth) u n (s.blank, j) → n ≤ k

theorem FlowsLe.of_flow {i j : Slot} {grows : Bool} {k : ℕ}
    (h : FlowsLe md maximumDepth start t j (k + grows.toNat))
    (hflow : md.Flow maximumDepth (s.blank, i) grows (t.blank, j)) :
    FlowsLe md maximumDepth start s i k := by
  intro u hu n hw
  have := h u hu _ (hw.trans (.single hflow))
  omega

/-- **The height of an argument** is bounded by the growing flows that lead to it. -/
theorem heightLe_of_reaches {height : ℕ}
    (hheight : ∀ r ∈ md.sources start, ∀ a ∈ r.args, a.HeightLe height)
    (h : md.Reaches maximumDepth start s) {j : Slot} {a : Il2CppType H P} (ha : s.arg j = some a)
    {k : ℕ} (hk : FlowsLe md maximumDepth start s j k) : a.HeightLe (height + k * height) := by
  induction h generalizing j a k with
  | init =>
    have hstart := hheight start start_mem_sources a (Instantiation.mem_args.2 ⟨j, ha⟩)
    exact hstart.mono (Nat.le_add_right _ _)
  | @step s t r hs _ hst ih =>
    rw [arg_of_step hst] at ha
    obtain ⟨u, hu, rfl⟩ := Option.map_eq_some_iff.1 ha
    have hle : u.HeightLe height :=
      hheight r (request_mem_sources hst) u (Instantiation.mem_args.2 ⟨j, hu⟩)
    have hflow {path : List TypeStep} {e : Il2CppType H P} {q : P ⊕ P}
        (hocc : u.occurrence path = some e) (hq : e.parameter? = some q) :
        md.Flow maximumDepth (s.blank, slotOf md.num q) (!path.isEmpty) (t.blank, j) :=
      ⟨r, blank_step hst, u, path, e, q, hu, hocc, hq, rfl, rfl⟩
    rcases hq : u.parameter? with - | q
    · -- the arguments that are put in grow
      refine Il2CppType.heightLe_subst (fun path e q b hocc hqe hb => ?_) hle
      rw [s.get_subst] at hb
      have hgrows : (!path.isEmpty) = true := by
        cases path with
        | nil =>
          simp only [Il2CppType.occurrence, Option.some.injEq] at hocc
          rw [hocc, hqe] at hq
          cases hq
        | cons step path => rfl
      have hgrow := hflow hocc hqe
      rw [hgrows] at hgrow
      have hpos : 1 ≤ k := hk _ (mem_vertices hs hb) 1 (.single hgrow)
      obtain ⟨k, rfl⟩ := Nat.exists_eq_add_one.2 hpos
      rw [Nat.succ_mul, Nat.add_comm]
      exact ih hb (hk.of_flow hgrow)
    · -- the argument itself is passed on
      rw [Il2CppType.subst_of_parameter hq, s.get_subst]
      cases hb : s.arg (slotOf md.num q) with
      | none => exact hle.mono (Nat.le_add_right _ _)
      | some b =>
        have hk : FlowsLe md maximumDepth start t j (k + false.toNat) := hk
        have hsame : u.occurrence [] = some u := by simp [Il2CppType.occurrence]
        exact (Il2CppType.heightLe_withByref u.byref).2 (ih hb (hk.of_flow (hflow hsame hq)))

theorem finite_reaches [Finite M] (h : ¬ md.Expands maximumDepth start) :
    {s | md.Reaches maximumDepth start s}.Finite := by
  have hargs := finite_sourceArgs md start
  obtain ⟨shapes, hshapes, hover⟩ :=
    Il2CppType.exists_over_of_finite hargs fun a _ => a.exists_over
  obtain ⟨height, hheight⟩ :=
    Il2CppType.exists_heightLe_of_finite hargs fun a _ => a.exists_heightLe
  let k := (md.vertices maximumDepth start).ncard
  have hflows (s : Instantiation M H P) (j : Slot) : FlowsLe md maximumDepth start s j k := by
    intro u hu n hw
    refine hw.count_le finite_vertices (fun u hu _ v hv => vertices_closed hu hv) ?_ hu
    intro v hv n hn
    by_contra hne
    exact h ⟨v.1, hv.1, v.2, n, Nat.pos_of_ne_zero hne, hn⟩
  refine (finite_of_args (finite_sources md start)
    (Il2CppType.finite_heightLe hshapes (height + k * height))).subset fun s hs => ?_
  refine ⟨exists_framed hs, fun a ha => ⟨?_, ?_⟩⟩
  · obtain ⟨j, hj⟩ := Instantiation.mem_args.1 ha
    exact heightLe_of_reaches (fun r hr a ha => hheight a ⟨r, hr, ha⟩) hs hj (hflows s j)
  · exact over_of_reaches (fun r hr a ha => hover a ⟨r, hr, ha⟩) hs a ha

/-- **Generic expansion**: from a generic method, inflating the entries of runtime generic contexts
creates finitely many generic methods and classes if and only if no argument grows into itself along
requests that lead back to the same instantiation, up to what arrays and pointers contain. -/
theorem generic_expansion [Finite M] (md : Definitions M H P) (maximumDepth : ℕ)
    (start : Instantiation M H P) :
    (md.createdMethods maximumDepth start).Finite ∧
        (md.createdClasses maximumDepth start).Finite ↔
      ¬ md.Expands maximumDepth start := by
  constructor
  · rintro ⟨hmethods, -⟩ hexpands
    exact infinite_of_expands hexpands hmethods
  · intro h
    have hfinite := finite_reaches h
    refine ⟨hfinite.image _, ?_⟩
    refine (hfinite.biUnion fun s _ => (md.types s).finite_toSet.biUnion fun t _ =>
      t.finite_occurrences.image Il2CppType.sortKey).subset ?_
    rintro k ⟨s, hs, t, ht, path, b, g, i, hocc, rfl⟩
    exact Set.mem_biUnion hs (Set.mem_biUnion ht ⟨_, ⟨path, hocc⟩, rfl⟩)

/-- A method that requests another one for arrays of its argument. -/
def arrayOnce : Definitions Bool Unit Unit where
  rgctxs m := if m then [] else [.method ⟨true, none, some [.szarray false (.mvar false ())]⟩]
  declaringType _ := ⟨false, ()⟩
  num _ := 0

/-- The other method requests nothing, so there is no cycle. -/
theorem generic_expansion_arrayOnce :
    (arrayOnce.createdMethods 7 ⟨false, none, some [.simple false .i4]⟩).Finite ∧
      (arrayOnce.createdClasses 7 ⟨false, none, some [.simple false .i4]⟩).Finite := by
  refine (generic_expansion arrayOnce 7 _).2 ?_
  have hstep {s r t : Instantiation Bool Unit Unit} (h : (arrayOnce.blankLts 7).step s r t) :
      s.methodDefinition = false ∧ t.methodDefinition = true := by
    obtain ⟨hr, ht⟩ := h
    obtain ⟨t', ht', rfl⟩ := Option.map_eq_some_iff.1 ht
    obtain ⟨rfl, -⟩ := inflate_eq_some ht'
    obtain ⟨m, ci, mi⟩ := s
    cases m with
    | true => simp [Definitions.requests, arrayOnce] at hr
    | false =>
      simp only [Definitions.requests, arrayOnce, Bool.false_eq_true, if_false,
        List.filterMap_cons, Entry.request, List.filterMap_nil, List.mem_singleton] at hr
      subst hr
      exact ⟨rfl, rfl⟩
  have hwalk {u v : Instantiation Bool Unit Unit × Slot} {n : ℕ}
      (h : Walk (arrayOnce.Flow 7) u n v) : n = 0 ∨ u.1.methodDefinition = false ∧
        v.1.methodDefinition = true := by
    induction h with
    | nil => exact .inl rfl
    | cons he hw ih =>
      obtain ⟨r, hst, -⟩ := he
      obtain ⟨hfalse, htrue⟩ := hstep hst
      cases hw with
      | nil => exact .inr ⟨hfalse, htrue⟩
      | cons he' =>
        obtain ⟨r', hst', -⟩ := he'
        cases htrue.symm.trans (hstep hst').1
  rintro ⟨s, -, i, n, hn, hw⟩
  rcases hwalk hw with rfl | ⟨hfalse, htrue⟩
  · exact absurd hn (Nat.lt_irrefl 0)
  · cases hfalse.symm.trans htrue

/-- A method that requests itself for arrays of its argument. -/
def arrayExpansion : Definitions Unit Unit Unit where
  rgctxs _ := [.method ⟨(), none, some [.szarray false (.mvar false ())]⟩]
  declaringType _ := ⟨false, ()⟩
  num _ := 0

/-- Generic instances do not occur at all, so the depth guard always passes. -/
theorem arrayExpansion_infinite :
    ¬ ∀ (md : Definitions Unit Unit Unit) (maximumDepth : ℕ) (start : Instantiation Unit Unit Unit),
      (md.createdMethods maximumDepth start).Finite ∧
        (md.createdClasses maximumDepth start).Finite := by
  intro h
  obtain ⟨hfinite, -⟩ := h arrayExpansion 7 ⟨(), none, some [.simple false .i4]⟩
  let r : Instantiation Unit Unit Unit := ⟨(), none, some [.szarray false (.mvar false ())]⟩
  let B : Instantiation Unit Unit Unit := ⟨(), none, some [.simple false .end]⟩
  have hr : r ∈ arrayExpansion.requests () := List.mem_singleton_self r
  have hflow : arrayExpansion.Flow 7 (B, .mth 0) true (B, .mth 0) :=
    ⟨r, ⟨hr, rfl⟩, _, [.element], .mvar false (), .inr (), rfl, rfl, rfl, rfl, rfl⟩
  refine infinite_of_expands ⟨B, ?_, .mth 0, 1, Nat.one_pos, .single hflow⟩ hfinite
  exact .step (l := r) .init trivial ⟨hr, rfl⟩

end Expansion

end Il2Cpp
