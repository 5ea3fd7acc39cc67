import Il2Cpp.Liveness.Traverse

/-!
# What a liveness state reports

The calls on one liveness state report every object once that is reachable and matches the filter,
and after `Finalize` no object is marked.  Two ways of looking at the fields are used, and what they
disagree about is left open: a string is found when it is in a field of an object with a bitmap
descriptor, not in other fields, and a value type without `has_references` (`Ephemeron`) is looked
into only when the fields are walked.

* `Refers`, `StaticRefers`, `Reachable` : references in objects, in static fields, and reachability.
* `Reached` : what the calls mark.
* `Ready.call`, `Ready.run` : one call, and several.
* `run_reports` : the main result.
* `static_string` : a string in a static field is not reported.
-/

namespace Il2Cpp

namespace Liveness

open Relation Il2CppClass Marking

variable {K Addr : Type} (T : TypeSystem K) (H : Heap K Addr)

/-- An object refers to another one: by a field whose type satisfies `p`, which may lie in value
types that satisfy `into`, or by an element of an array. -/
def Refers (into : Il2CppClass → Bool) (p : FieldType Il2CppClass → Bool) (a b : Addr) : Prop :=
  ∃ x, (x ∈ T.elements (H.classOf a) (H.length a) ∨
    T.FieldPlace into p (H.classOf a) (H.length a) x) ∧ H.read a x = some b

/-- A static field refers to an object: one whose type satisfies `p`, or one of a value type with
such a field.  Static fields are those of initialized classes outside corlib, without those of
threads. -/
def StaticRefers (p : FieldType Il2CppClass → Bool) (b : Addr) : Prop :=
  ∃ k ∈ H.staticFieldData, (T.classes k).inCorlib = false ∧ (T.classes k).sizeInited = true ∧
    ∃ f ∈ (T.classes k).layout.fields, f.attrs.isStatic = true ∧
      f.offset ≠ threadStaticFieldOffset ∧
      ((∃ c ∈ f.type.structClass, ∃ offset g, FieldAt (fun _ => true) c offset g ∧
          p g.type = true ∧ H.readStatic k (f.offset - sizeOfObject + offset) = some b) ∨
        f.type.structClass = none ∧ f.attrs.literal = false ∧ p f.type = true ∧
          H.readStatic k f.offset = some b)

/-- An object is reachable from the roots of a call, along at least one reference. -/
def Reachable (static : Addr → Prop) (refers : Addr → Addr → Prop) : Call Addr → Addr → Prop
  | .fromRoot root => TransGen refers root
  | .fromStatics => fun x => ∃ q, static q ∧ ReflTransGen refers q x

/-- References in any fields. -/
def RefersAny : Addr → Addr → Prop :=
  Refers T H (fun _ => true) (·.isBitmapped)

/-- References in fields that are not strings, nor lie in a value type without references. -/
def RefersStrong (a b : Addr) : Prop :=
  T.hasReferences (H.classOf a) = true ∧ Refers T H Il2CppClass.hasReferences (·.isWalked) a b

namespace LivenessState

variable [DecidableEq K] {T H} {filter : Option K}

omit [DecidableEq K] in
theorem mem_references {a b : Addr} :
    some b ∈ (references T H a).flatten ↔
      ∃ x ∈ (T.descriptorPlaces (H.classOf a) (H.length a)).flatten, H.read a x = some b := by
  rw [references, ← List.map_flatten, List.mem_map]

theorem mem_staticFieldPlaces {f : FieldInfo Il2CppClass} {x : ℤ} :
    x ∈ staticFieldPlaces f ↔ f.attrs.isStatic = true ∧ f.offset ≠ threadStaticFieldOffset ∧
      ((∃ c ∈ f.type.structClass, ∃ offset g, FieldAt (fun _ => true) c offset g ∧
          g.type.isWalked = true ∧ x = f.offset - sizeOfObject + offset) ∨
        f.type.structClass = none ∧ f.attrs.literal = false ∧ f.type.isWalked = true ∧
          x = f.offset) := by
  rw [staticFieldPlaces]
  by_cases hs : f.attrs.isStatic = true
  · by_cases ho : f.offset = threadStaticFieldOffset
    · simp [ho]
    · rcases hc : f.type.structClass with _ | c
      · rcases FieldType.isStruct_eq hc with hstruct | htype
        · rw [FieldType.fieldCanContainReferences_eq f.attrs hstruct]
          cases hl : f.attrs.literal <;> cases hw : f.type.isWalked <;> simp [hs, ho, hstruct]
        · simp [htype, FieldType.isStruct, FieldType.isWalked, FieldType.isReference]
      · have hstruct : f.type.isStruct = true := by
          unfold FieldType.isStruct
          split
          · rfl
          · simp [hc]
        simp [hs, ho, FieldType.fieldCanContainReferences, hstruct, mem_traverseObjectInternal]
  · simp [hs]

omit [DecidableEq K] in
theorem mem_staticReferences {b : Addr} :
    some b ∈ staticReferences T H ↔ StaticRefers T H (·.isWalked) b := by
  simp only [staticReferences, List.mem_flatMap, List.mem_filter, List.mem_map,
    mem_staticFieldPlaces, StaticRefers]
  constructor
  · rintro ⟨k, ⟨hk, hinit⟩, x, ⟨f, hf, hs, ho, hx⟩, hr⟩
    rw [Bool.and_eq_true, Bool.not_eq_true'] at hinit
    refine ⟨k, hk, hinit.1, hinit.2, f, hf, hs, ho, ?_⟩
    rcases hx with ⟨c, hc, offset, g, hg, hw, rfl⟩ | ⟨hc, hl, hw, rfl⟩
    · exact .inl ⟨c, hc, offset, g, hg, hw, hr⟩
    · exact .inr ⟨hc, hl, hw, hr⟩
  · rintro ⟨k, hk, hcorlib, hinit, f, hf, hs, ho, hx⟩
    refine ⟨k, ⟨hk, by rw [hcorlib, hinit]; rfl⟩, ?_⟩
    rcases hx with ⟨c, hc, offset, g, hg, hw, hr⟩ | ⟨hc, hl, hw, hr⟩
    · exact ⟨_, ⟨f, hf, hs, ho, .inl ⟨c, hc, offset, g, hg, hw, rfl⟩⟩, hr⟩
    · exact ⟨_, ⟨f, hf, hs, ho, .inr ⟨hc, hl, hw, rfl⟩⟩, hr⟩

theorem refersAny_of_out {a b : Addr} (h : Out T H filter a b) : RefersAny T H a b := by
  obtain ⟨x, hx, hr⟩ := mem_references.1 h.1
  refine ⟨x, (TypeSystem.mem_descriptorPlaces.1 hx).imp_right fun hx => ?_, hr⟩
  split at hx
  · obtain ⟨start, hs, offset, f, hf, hb, rfl⟩ := hx
    exact ⟨start, hs, offset, f, hf.mono fun _ _ => rfl, hb, rfl⟩
  · obtain ⟨start, hs, offset, f, hf, hw, rfl⟩ := hx
    exact ⟨start, hs, offset, f, hf, FieldType.isBitmapped_of_isWalked hw, rfl⟩

theorem out_of_refersStrong {a b : Addr} (h : RefersStrong T H a b) (hw : Wanted T H filter b) :
    Out T H filter a b := by
  obtain ⟨-, x, hx, hr⟩ := h
  refine ⟨mem_references.2 ⟨x, TypeSystem.mem_descriptorPlaces.2 ?_, hr⟩, hw⟩
  refine hx.imp_right fun ⟨start, hs, offset, f, hf, hwalked, hx⟩ => ?_
  split
  · exact ⟨start, hs, offset, f, hf, FieldType.isBitmapped_of_isWalked hwalked, hx⟩
  · exact ⟨start, hs, offset, f, hf.mono fun _ _ => rfl, hwalked, hx⟩

/-- The references that a call starts from. -/
def Source (T : TypeSystem K) (H : Heap K Addr) (filter : Option K) : Call Addr → Addr → Prop
  | .fromRoot root => Out T H filter root
  | .fromStatics => fun q => StaticRefers T H (·.isWalked) q ∧ Wanted T H filter q

/-- What a call marks: the objects reachable along the references that are followed. -/
def Reached (T : TypeSystem K) (H : Heap K Addr) (filter : Option K) (c : Call Addr) (x : Addr) :
    Prop :=
  ∃ q, Source T H filter c q ∧ ReflTransGen (fun a b => Inner T H a ∧ Out T H filter a b) q x

theorem Reached.reachable {c : Call Addr} {x : Addr} (h : Reached T H filter c x) :
    Reachable (StaticRefers T H (·.isWalked)) (RefersAny T H) c x := by
  obtain ⟨q, hq, hpath⟩ := h
  have hpath' := ReflTransGen.mono (fun a b hab => refersAny_of_out hab.2) _ _ hpath
  cases c with
  | fromRoot root => exact .head' (refersAny_of_out hq) hpath'
  | fromStatics => exact ⟨q, hq.1, hpath'⟩

theorem path_of_refersStrong {q x : Addr} (hx : shouldProcessValue T H filter x = true)
    (h : ReflTransGen (RefersStrong T H) q x) :
    Wanted T H filter q ∧ ReflTransGen (fun a b => Inner T H a ∧ Out T H filter a b) q x := by
  induction h using ReflTransGen.head_induction_on with
  | refl => exact ⟨.inr hx, .refl⟩
  | head hab _ ih => exact ⟨.inl hab.1, ih.2.head ⟨hab.1, out_of_refersStrong hab ih.1⟩⟩

theorem Reached.of_reachable {c : Call Addr} {x : Addr} (hx : shouldProcessValue T H filter x = true)
    (h : Reachable (StaticRefers T H (·.isWalked)) (RefersStrong T H) c x) :
    Reached T H filter c x := by
  cases c with
  | fromRoot root =>
    obtain ⟨q, hq, hpath⟩ := TransGen.head'_iff.1 h
    obtain ⟨hw, hpath'⟩ := path_of_refersStrong hx hpath
    exact ⟨q, out_of_refersStrong hq hw, hpath'⟩
  | fromStatics =>
    obtain ⟨q, hq, hpath⟩ := h
    obtain ⟨hw, hpath'⟩ := path_of_refersStrong hx hpath
    exact ⟨q, ⟨hq, hw⟩, hpath'⟩

/-! ### Calls -/

section

variable [DecidableEq Addr] [Fintype Addr] {s : LivenessState Addr}

omit [DecidableEq Addr] [Fintype Addr] in
theorem flatten_filterLoop (values filteredObjects : List Addr) :
    (filterLoop T H filter values filteredObjects).flatten =
      filteredObjects ++ values.filter (shouldProcessValue T H filter) := by
  induction values generalizing filteredObjects with
  | nil =>
    rw [filterLoop]
    split <;> simp_all
  | cons value values ih =>
    rw [filterLoop]
    cases hv : shouldProcessValue T H filter value <;> simp only [Bool.false_eq_true, if_true, if_false]
      <;> split <;> simp [ih, hv]

/-- A liveness state between two calls. -/
structure Ready (T : TypeSystem K) (H : Heap K Addr) (filter : Option K) (s : LivenessState Addr) :
    Prop where
  book : Book s
  iterator : s.iterator = s.allObjects.length
  closed : ∀ y, s.marked y = true → ∀ x, Inner T H y → Out T H filter y x → s.marked x = true

/-- What a call does: it marks the objects that it reaches, and reports those that match and were
not marked before. -/
structure CallSpec (T : TypeSystem K) (H : Heap K Addr) (filter : Option K)
    (s s' : LivenessState Addr) (reports : List Addr) (c : Call Addr) : Prop where
  ready : Ready T H filter s'
  marked : ∀ x, s'.marked x = true ↔ s.marked x = true ∨ Reached T H filter c x
  reports : ∃ new, s'.allObjects = s.allObjects ++ new ∧
    reports = new.filter (shouldProcessValue T H filter)

theorem Ready.traverse {n : ℕ} {s₁ : LivenessState Addr} {c : Call Addr} (h : Ready T H filter s)
    (hbook : Book s₁) (hiter : s₁.iterator = s.iterator)
    (hall : s.allObjects <+: s₁.allObjects) (hn : measure s₁ < n)
    (hclosed : ∀ x, Closed T H filter s₁ ∅ x ↔ s.marked x = true ∨ Reached T H filter c x) :
    ∃ s' reports, (traverseObjects T H filter n s₁).map (filterObjects T H filter) =
      some (s', reports) ∧ CallSpec T H filter s s' reports.flatten c := by
  obtain ⟨s₂, hs₂, hp, hnil⟩ := traverseObjects_spec T H filter s₁ hn
  have hmarked (x : Addr) : s₂.marked x = true ↔ s.marked x = true ∨ Reached T H filter c x := by
    have hempty : {x | x ∈ s₂.processArray} = ∅ := by simp [hnil]
    have hdone : Closed T H filter s₂ ∅ x ↔ s₂.marked x = true := by
      rw [Closed, hempty]
      exact closure_done
    rw [← hdone, hp.closed, Set.empty_union, hclosed]
  refine ⟨(filterObjects T H filter s₂).1, (filterObjects T H filter s₂).2,
    by rw [hs₂, Option.map_some], ⟨?_, rfl, fun y hy x hi ho => ?_⟩, hmarked, ?_⟩
  · exact ⟨(hp.book hbook).nodup, (hp.book hbook).mem⟩
  · refine (hmarked x).2 ?_
    rcases (hmarked y).1 hy with hy | ⟨q, hq, hpath⟩
    · exact .inl (h.closed y hy x hi ho)
    · exact .inr ⟨q, hq, hpath.tail ⟨hi, ho⟩⟩
  · obtain ⟨new, hnew⟩ := hall.trans hp.allObjects
    refine ⟨new, hnew.symm, ?_⟩
    rw [filterObjects, flatten_filterLoop, List.nil_append, hp.iterator, hiter, h.iterator, ← hnew,
      List.drop_left]

omit [DecidableEq Addr] in
theorem measure_reset_le (s : LivenessState Addr) : measure s.reset ≤ Fintype.card Addr := by
  rw [measure, reset, List.length_nil, Nat.add_zero]
  exact Finset.card_le_univ _

/-- **One call.** -/
theorem Ready.call {n : ℕ} (h : Ready T H filter s) (hn : Fintype.card Addr + 1 < n)
    (c : Call Addr) :
    ∃ s' reports, call T H filter n s c = some (s', reports) ∧
      CallSpec T H filter s s' reports.flatten c := by
  have hle := s.measure_reset_le
  cases c with
  | fromRoot root =>
    refine h.traverse ⟨h.book.nodup, h.book.mem⟩ rfl (List.prefix_refl _) ?_ fun x => ?_
    · refine Nat.lt_of_le_of_lt ?_ hn
      rw [measure, reset, List.length_nil, Nat.add_zero] at hle
      exact Nat.add_le_add_right hle 1
    · refine (closure_iff h.closed).trans (or_congr_right (exists_congr fun q => ?_))
      simp [Source, reset, push]
  | fromStatics =>
    have hp := progress_addProcessObjects T H filter (staticReferences T H) s.reset
    refine h.traverse (hp.book ⟨h.book.nodup, h.book.mem⟩) hp.iterator hp.allObjects ?_ fun x => ?_
    · have := hp.measure_le
      omega
    · rw [hp.closed, Set.union_empty]
      refine (closure_iff h.closed).trans (or_congr_right (exists_congr fun q => ?_))
      simp [Source, reset, Offered, mem_staticReferences]

/-- **Several calls** report what they reach, each object once. -/
theorem Ready.run {n : ℕ} (hn : Fintype.card Addr + 1 < n) (calls : List (Call Addr))
    (h : Ready T H filter s) :
    ∃ s' new, run T H filter n calls s =
        some (s', new.filter (shouldProcessValue T H filter)) ∧ Ready T H filter s' ∧
      s'.allObjects = s.allObjects ++ new ∧
      ∀ x, s'.marked x = true ↔ s.marked x = true ∨ ∃ c ∈ calls, Reached T H filter c x := by
  induction calls generalizing s with
  | nil => exact ⟨s, [], rfl, h, by simp, by simp⟩
  | cons c calls ih =>
    obtain ⟨s₁, reports, hcall, hspec⟩ := h.call hn c
    obtain ⟨new₁, hnew₁, hreports⟩ := hspec.reports
    obtain ⟨s₂, new₂, hrun, hready, hnew₂, hmarked⟩ := ih hspec.ready
    refine ⟨s₂, new₁ ++ new₂, ?_, hready, by rw [hnew₂, hnew₁, List.append_assoc], fun x => ?_⟩
    · rw [LivenessState.run, hcall, Option.bind_some]
      simp only [hrun, Option.map_some, hreports, List.filter_append]
    · rw [hmarked, hspec.marked, or_assoc]
      simp

variable (T H filter) in
omit [DecidableEq Addr] [Fintype Addr] in
theorem ready_initial : Ready T H filter (initial : LivenessState Addr) where
  book := ⟨List.nodup_nil, by simp [initial]⟩
  iterator := rfl
  closed := by simp [initial]

omit [Fintype Addr] in
theorem marked_finalize (h : Book s) (x : Addr) : s.finalize.marked x = false := by
  have hfold (l : List Addr) (marked : Addr → Bool) :
      (l.foldl (fun marked object => Function.update marked object false) marked) x = true →
        marked x = true ∧ x ∉ l := by
    induction l generalizing marked with
    | nil => simp
    | cons object l ih =>
      intro hx
      obtain ⟨hm, hl⟩ := ih _ hx
      have hxo : x ≠ object := by
        rintro rfl
        simp at hm
      exact ⟨by simpa [Function.update_of_ne hxo] using hm, by simp [hxo, hl]⟩
  by_contra hx
  obtain ⟨hm, hl⟩ := hfold s.allObjects s.marked (by simpa [finalize] using hx)
  exact hl ((h.mem x).2 hm)

end

end LivenessState

open LivenessState

/-- **What the calls on a liveness state report.**  Every object that matches the filter is reported
if it is reachable along references other than strings and those in value types without references;
an object that is reported matches, and is reachable along references of any kind; none is reported
twice; and after `Finalize` no object is marked. -/
theorem run_reports [DecidableEq K] [DecidableEq Addr] [Fintype Addr] (filter : Option K)
    (calls : List (Call Addr)) {n : ℕ} (hn : Fintype.card Addr + 1 < n) :
    ∃ s reports, run T H filter n calls initial = some (s, reports) ∧ reports.Nodup ∧
      (∀ x, shouldProcessValue T H filter x = true →
        (∃ c ∈ calls, Reachable (StaticRefers T H (·.isWalked)) (RefersStrong T H) c x) →
          x ∈ reports) ∧
      (∀ x ∈ reports, shouldProcessValue T H filter x = true ∧
        ∃ c ∈ calls, Reachable (StaticRefers T H (·.isWalked)) (RefersAny T H) c x) ∧
      ∀ x, s.finalize.marked x = false := by
  obtain ⟨s, new, hrun, hready, hall, hmarked⟩ :=
    (ready_initial T H filter).run hn calls
  have hnew : s.allObjects = new := hall
  have hmem (x : Addr) : x ∈ new ↔ ∃ c ∈ calls, Reached T H filter c x := by
    rw [← hnew, hready.book.mem, hmarked]
    simp [initial]
  refine ⟨s, _, hrun, (hnew ▸ hready.book.nodup).filter _, fun x hx hreach => ?_, fun x hx => ?_,
    marked_finalize hready.book⟩
  · obtain ⟨c, hc, hreach⟩ := hreach
    exact List.mem_filter.2 ⟨(hmem x).2 ⟨c, hc, .of_reachable hx hreach⟩, hx⟩
  · obtain ⟨hx, hmatch⟩ := List.mem_filter.1 hx
    obtain ⟨c, hc, hreached⟩ := (hmem x).1 hx
    exact ⟨hmatch, c, hc, hreached.reachable⟩

/-! ### A class with a string in a static field -/

/-- A class with the fields `static string label`, `static Holder next` and `string name`. -/
def holder : Il2CppClass :=
  .mk false none
    [⟨⟨true, false, false, Bool.false_le _, Bool.false_le _⟩, .simple .string, 0, by decide⟩,
      ⟨⟨true, false, false, Bool.false_le _, Bool.false_le _⟩, .klass, 8, by decide⟩,
      ⟨⟨false, false, false, Bool.false_le _, Bool.false_le _⟩, .simple .string, 16, by decide⟩]

/-- The class `string`, which is `false`, and the class `Holder`. -/
def holderTypes : TypeSystem Bool where
  classes
    | false => ⟨.mk false none [], 22, .reference, none, true, 8, 0, [false], true, true⟩
    | true => ⟨holder, 24, .reference, none, false, 8, (setupGCDescriptor [] false holder 24).2,
        [true], true, false⟩
  descTable := []
  laid k := by
    cases k with
    | false => exact ⟨by decide, by decide⟩
    | true => exact ⟨by decide, by decide⟩
  described k h := by
    cases k with
    | false => simp at h
    | true => exact ⟨[], by decide, rfl⟩
  pointer k h := by cases k <;> cases h

/-- The static fields of `Holder` refer to a string and to an object of the class, whose `name` is
`null`. -/
def holderHeap : Heap Bool Bool where
  classOf object := object
  read _ _ := none
  length _ := 0
  staticFieldData := [true]
  readStatic
    | true, 0 => some false
    | true, 8 => some true
    | _, _ => none

/-- The string in the static field is not reported, although it is reachable and there is no
filter. -/
theorem static_string :
    Reachable (StaticRefers holderTypes holderHeap (·.isReference)) (RefersAny holderTypes holderHeap)
        .fromStatics false ∧
      shouldProcessValue holderTypes holderHeap none false = true ∧
      (run holderTypes holderHeap none 4 [.fromStatics] initial).map Prod.snd = some [true] := by
  refine ⟨⟨false, ⟨true, List.mem_singleton_self _, rfl, rfl, _, List.mem_cons_self, rfl, by decide,
    .inr ⟨rfl, rfl, rfl, rfl⟩⟩, .refl⟩, rfl, by decide⟩

theorem run_reports_holder :
    Fintype.card Bool + 1 < 4 ∧
    ∃ s reports, run holderTypes holderHeap none 4 [.fromStatics, .fromRoot true] initial =
        some (s, reports) ∧ reports.Nodup ∧
      (∀ x, shouldProcessValue holderTypes holderHeap none x = true →
        (∃ c ∈ [.fromStatics, .fromRoot true],
          Reachable (StaticRefers holderTypes holderHeap (·.isWalked))
            (RefersStrong holderTypes holderHeap) c x) → x ∈ reports) ∧
      (∀ x ∈ reports, shouldProcessValue holderTypes holderHeap none x = true ∧
        ∃ c ∈ [.fromStatics, .fromRoot true],
          Reachable (StaticRefers holderTypes holderHeap (·.isWalked))
            (RefersAny holderTypes holderHeap) c x) ∧
      ∀ x, s.finalize.marked x = false :=
  ⟨by decide, run_reports holderTypes holderHeap none _ (by decide)⟩

end Liveness

end Il2Cpp
