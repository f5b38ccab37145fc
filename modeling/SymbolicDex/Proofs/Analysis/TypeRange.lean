import SymbolicDex.Proofs.Analysis.CheckedTypes
import SymbolicDex.Proofs.Analysis.Recurrence
import SymbolicDex.Proofs.Hierarchy.SupertypeRange

/- Which types a visit can lead to. Given the forms of the instructions, every
   type that comes up has a class that the code names, or one that comes of
   such classes by taking common supertypes and elements of arrays.

   What is proved:
     1. `merge_in`, `mergedPre_in`, `apply_keeps`: merging states and applying an
        instruction stay within a closed set of classes.
     2. `afterCheck_within`: what a branch learns is about registers and a class
        that the code names.
     3. `Visit.within`: so a visit that keeps all forms stays within the set. -/
namespace SymbolicDex

/-! ## Merging -/

namespace RegisterType

/-- The class of the type, if it has one, is in the set. -/
def In (U : Descriptor → Prop) (t : RegisterType) : Prop := ∀ d, t.cls = some d → U d

variable {U : Descriptor → Prop}

theorem in_ofCategory (c : Category) : (ofCategory c).In U := fun _ h => nomatch h

theorem in_reference {d : Descriptor} (h : U d) : (reference d).In U := by
  intro d' hd
  cases hd
  exact h

theorem in_ofDescriptor {d : Descriptor} (h : U d) : (ofDescriptor d).In U := by
  unfold ofDescriptor
  repeat' split
  all_goals first | exact in_ofCategory _ | exact in_reference h

theorem in_wideHigh {t high : RegisterType} (h : t.wideHigh? = some high) : high.In U := by
  obtain ⟨c, -, rfl⟩ := Option.map_eq_some_iff.1 h
  exact in_ofCategory c

variable {p : ClassPath}

theorem mergeClass_in (hU : p.Closed U) {a b : RegisterType} (ha : a.In U) (hb : b.In U)
    (m : Memo) : ∀ d, ((mergeClass p a b).run m).1 = some d → U d := by
  intro d h
  unfold mergeClass at h
  split at h
  -- two classes have a common one; a single class is kept or dropped
  · rename_i hca hcb
    rw [Query.run_bind] at h
    cases h
    exact hU.common _ _ _ (ha _ hca) (hb _ hcb)
  · rename_i hca hcb
    rw [Query.run_pure] at h
    dsimp only at h
    split at h
    · cases h
      exact ha _ hca
    · cases h
  · rename_i hca hcb
    rw [Query.run_pure] at h
    dsimp only at h
    split at h
    · cases h
      exact hb _ hcb
    · cases h
  · cases h

theorem merge_in (hU : p.Closed U) {a b : RegisterType} (ha : a.In U) (hb : b.In U) (m : Memo) :
    ((merge p a b).run m).1.In U := by
  unfold merge
  split
  · exact ha
  · split
    · exact hb
    · split
      · rw [Query.run_bind]
        exact mergeClass_in hU ha hb m
      · exact fun _ h => nomatch h
      · exact fun _ h => nomatch h
      · exact in_ofCategory _

theorem mergeAll_in (hU : p.Closed U) {as bs : List RegisterType} (ha : ∀ t ∈ as, t.In U)
    (hb : ∀ t ∈ bs, t.In U) (m : Memo) : ∀ t ∈ ((mergeAll p as bs).run m).1, t.In U := by
  induction as generalizing bs m with
  | nil => exact fun t ht => nomatch ht
  | cons a as ih =>
    cases bs with
    | nil => exact ha
    | cons b bs =>
      obtain ⟨ha, has⟩ := List.forall_mem_cons.1 ha
      obtain ⟨hb, hbs⟩ := List.forall_mem_cons.1 hb
      unfold mergeAll
      dsimp only
      split
      · exact List.forall_mem_cons.2 ⟨ha, ih has hbs m⟩
      · exact List.forall_mem_cons.2 ⟨merge_in hU ha hb m, ih has hbs _⟩

end RegisterType

/-! ## Applying an instruction -/

/-- The classes that an instruction can leave in a register by itself. -/
def Instruction.names (i : Instruction) : List Descriptor :=
  i.typeRef?.toList ++ (i.fieldRef?.map (·.type)).toList ++
    (i.methodRef?.map (·.prototype.result)).toList ++
    (match i.reference2 with
      | some (.prototype p) => [p.result]
      | _ => []) ++
    match i.opcode.registerEffect with
    | .ofClass d => [d]
    | _ => []

namespace Instruction

variable {i : Instruction}

theorem typeRef_mem_names {d : Descriptor} (h : i.typeRef? = some d) : d ∈ i.names := by
  simp [names, h]

theorem fieldRef_mem_names {f : FieldRef} (h : i.fieldRef? = some f) : f.type ∈ i.names := by
  simp [names, h]

theorem methodRef_mem_names {m : MethodRef} (h : i.methodRef? = some m) :
    m.prototype.result ∈ i.names := by
  simp [names, h]

theorem prototype_mem_names {p : Prototype} (h : i.reference2 = some (.prototype p)) :
    p.result ∈ i.names := by
  simp [names, h]

theorem ofClass_mem_names {d : Descriptor} (h : i.opcode.registerEffect = .ofClass d) :
    d ∈ i.names := by
  simp [names, h]

end Instruction

namespace Site

open Rule RegisterType

variable (s : Site) {U : Descriptor → Prop}

/-- A state of as many registers, of types in the set. -/
def Keeps (U : Descriptor → Prop) (post : List RegisterType) : Prop :=
  post.length = s.pre.length ∧ ∀ t ∈ post, t.In U

theorem write_keeps (hpre : ∀ t ∈ s.pre, t.In U) {r : Nat} {t : RegisterType} (ht : t.In U) :
    Ensures (s.write r t) (s.Keeps U) fun _ => True := by
  have hset {ts : List RegisterType} {r : Nat} {t : RegisterType} (hts : s.Keeps U ts)
      (ht : t.In U) : s.Keeps U (ts.set r t) := by
    refine ⟨by rw [List.length_set, hts.1], fun u hu => ?_⟩
    rcases List.mem_or_eq_of_mem_set hu with hu | rfl
    · exact hts.2 u hu
    · exact ht
  have hkeeps := hset (r := r) ⟨rfl, hpre⟩ ht
  refine Ensures.ite (fun _ => Ensures.fail trivial) fun _ => ?_
  split
  · exact Ensures.pure hkeeps
  · rename_i high hhigh
    exact Ensures.ite (fun _ => Ensures.fail trivial) fun _ =>
      Ensures.pure (hset hkeeps (in_wideHigh hhigh))

theorem writeDest_keeps (hpre : ∀ t ∈ s.pre, t.In U) {i : Instruction} {t : RegisterType}
    (ht : t.In U) : Ensures (s.writeDest i t) (s.Keeps U) fun _ => True :=
  Ensures.bind (Ensures.need (fun _ _ => trivial) trivial) fun _ (_ : True) =>
    s.write_keeps hpre ht

theorem resultType_in (hobject : U Descriptor.object) {moveOp : Opcode} {producer : Instruction}
    (hnames : ∀ d ∈ producer.names, U d) :
    Ensures (resultType moveOp producer) (·.In U) fun _ => True := by
  unfold resultType
  have hnamed : Ensures (do
      let array ← Rule.need producer.typeRef? (.noArrayType producer.opcode)
      return RegisterType.ofDescriptor array : Rule RegisterType) (·.In U) fun _ => True :=
    Ensures.bind (Ensures.need (fun _ h => h) trivial) fun d hd =>
      Ensures.pure (in_ofDescriptor (hnames d (Instruction.typeRef_mem_names hd)))
  have hcustom : (customResult moveOp).In U := by
    unfold customResult
    split
    · exact in_ofCategory _
    · exact in_reference hobject
    · exact in_ofCategory _
  split
  · exact hnamed
  · exact hnamed
  · split
    · rename_i p hp
      exact Ensures.pure (in_ofDescriptor (hnames _ (Instruction.prototype_mem_names hp)))
    · exact Ensures.fail trivial
  · split
    · rename_i p hp
      exact Ensures.pure (in_ofDescriptor (hnames _ (Instruction.prototype_mem_names hp)))
    · exact Ensures.fail trivial
  · exact Ensures.pure hcustom
  · exact Ensures.pure hcustom
  · split
    · exact Ensures.fail trivial
    · rename_i m hm
      refine Ensures.ite (fun _ => Ensures.fail trivial) fun _ => ?_
      exact Ensures.pure (in_ofDescriptor (hnames _ (Instruction.methodRef_mem_names hm)))

theorem construct_keeps (hpre : ∀ t ∈ s.pre, t.In U) {i : Instruction} :
    Ensures (s.construct i) (s.Keeps U) fun _ => True := by
  have hsame : s.Keeps U s.pre := ⟨rfl, hpre⟩
  unfold construct
  split
  · exact Ensures.pure hsame
  · refine Ensures.ite (fun _ => Ensures.pure hsame) fun _ => ?_
    refine Ensures.bind (Ensures.need (fun _ _ => trivial) trivial) fun r (_ : True) => ?_
    refine Ensures.bind (Ensures.need (fun _ h => h) trivial) fun object hobject => ?_
    refine Ensures.ite (fun _ => ?_) fun _ => Ensures.pure hsame
    split
    · exact Ensures.pure hsame
    · rename_i d hd
      refine Ensures.pure ⟨List.length_map _, fun t ht => ?_⟩
      obtain ⟨u, hu, rfl⟩ := List.mem_map.1 ht
      split
      · exact in_reference (hpre object (List.mem_of_getElem? hobject) d hd)
      · exact hpre u hu

theorem objectElement_in {p : ClassPath} (hU : p.Closed U) {array : RegisterType}
    (harray : array.In U) {r : Nat} :
    Ensures (objectElement p array r) (·.In U) fun _ => True := by
  unfold objectElement
  split
  · exact Ensures.pure fun _ h => nomatch h
  · rename_i d _ hd
    split
    · rename_i element helement
      refine Ensures.ite (fun _ => Ensures.pure (in_ofDescriptor ?_)) fun _ => Ensures.throw trivial
      unfold ClassPath.elementType? at helement
      split at helement
      · cases helement
        exact hU.component d (harray d hd)
      · cases helement
    · exact Ensures.throw trivial
  · exact Ensures.throw trivial

theorem wideElement_in {array : RegisterType} {r : Nat} :
    Ensures (wideElement array r) (·.In U) fun _ => True := by
  unfold wideElement
  split
  · exact Ensures.pure (in_ofCategory _)
  · refine Ensures.ite (fun _ => Ensures.pure (in_ofCategory _)) fun _ => ?_
    exact Ensures.ite (fun _ => Ensures.pure (in_ofCategory _)) fun _ => Ensures.throw trivial
  · exact Ensures.throw trivial

theorem mergeReferences_in {p : ClassPath} (hU : p.Closed U) {ds : List Descriptor}
    (hds : ∀ d ∈ ds, U d) (m : Memo) : ((mergeReferences p ds).run m).1.In U := by
  have hfold : ∀ {ds : List Descriptor} (_ : ∀ d ∈ ds, U d) {t : RegisterType} (_ : t.In U)
      (m : Memo), ((ds.foldlM (fun t d => RegisterType.merge p t (RegisterType.reference d))
        t).run m).1.In U := by
    intro ds hds
    induction ds with
    | nil => exact fun ht _ => ht
    | cons d ds ih =>
      intro t ht m
      obtain ⟨hd, hds⟩ := List.forall_mem_cons.1 hds
      rw [List.foldlM_cons, Query.run_bind]
      exact ih hds (merge_in hU ht (in_reference hd) m) _
  exact hfold hds (in_ofCategory .unknown) m

/-- What a rule reads is in the set. -/
structure Reads (U : Descriptor → Prop) : Prop where
  pre : ∀ t ∈ s.pre, t.In U
  hint : ∀ t, s.hint = some t → t.In U
  previous : ∀ i, s.previous = some i → ∀ d ∈ i.names, U d
  caught : ∀ d ∈ s.caughtTypes, U d

variable {s} in
theorem Reads.read (h : s.Reads U) {r : Nat} {t : RegisterType} (ht : s.pre[r]? = some t) :
    t.In U := h.pre t (List.mem_of_getElem? ht)

variable {s} in
theorem Reads.object (h : s.Reads U) (r : Nat) :
    Ensures (s.objectType r) (·.In U) fun _ => True := by
  rw [objectType_eq]
  refine Ensures.need (fun t ht => ?_) trivial
  unfold objectIn at ht
  cases hhint : s.hint with
  | none =>
    rw [hhint] at ht
    exact h.read ht
  | some u =>
    rw [hhint] at ht
    cases ht
    exact h.hint t hhint

theorem apply_keeps (hU : s.path.Closed U) (h : s.Reads U) {i : Instruction}
    (hnames : ∀ d ∈ i.names, U d) : Ensures (s.apply i) (s.Keeps U) fun _ => True := by
  unfold apply
  cases heffect : i.opcode.registerEffect with
  | keep => exact Ensures.pure ⟨rfl, h.pre⟩
  | copy =>
    refine Ensures.bind .found fun _ _ => Ensures.bind .found fun _ _ => ?_
    exact Ensures.bind .found fun t ht => s.write_keeps h.pre (h.read ht)
  | result =>
    refine Ensures.bind .found fun _ _ => Ensures.bind .found fun producer hproducer => ?_
    have hprevious := h.previous producer (Option.filter_eq_some_iff.1 hproducer).1
    exact Ensures.bind (resultType_in hU.object hprevious) fun t ht => s.write_keeps h.pre ht
  | exception =>
    refine Ensures.bind .found fun _ _ => ?_
    split
    · exact Ensures.fail trivial
    · refine Ensures.bind (P := (·.In U)) (fun m => ⟨fun t ht => ?_, fun _ _ => trivial⟩)
        fun t ht => s.write_keeps h.pre ht
      cases ht
      exact mergeReferences_in hU h.caught m
  | literal =>
    refine Ensures.bind .found fun _ _ => Ensures.bind .found fun _ _ => ?_
    exact s.write_keeps h.pre (in_ofCategory _)
  | value _ => exact s.writeDest_keeps h.pre (in_ofCategory _)
  | ofClass d =>
    have hnamed : U d := hnames d (Instruction.ofClass_mem_names heffect)
    exact s.writeDest_keeps h.pre (in_reference hnamed)
  | named =>
    refine Ensures.bind .found fun _ _ => Ensures.bind .found fun d hd => ?_
    exact s.write_keeps h.pre (in_ofDescriptor (hnames d (Instruction.typeRef_mem_names hd)))
  | newInstance =>
    refine Ensures.bind .found fun _ _ => Ensures.bind .found fun d hd => ?_
    exact s.write_keeps h.pre (in_reference (hnames d (Instruction.typeRef_mem_names hd)))
  | wideElement =>
    refine Ensures.bind .found fun _ _ => Ensures.bind .found fun _ _ => ?_
    refine Ensures.bind (h.object _) fun _ _ => ?_
    exact Ensures.bind wideElement_in fun t ht => s.write_keeps h.pre ht
  | objectElement =>
    refine Ensures.bind .found fun _ _ => Ensures.bind .found fun _ _ => ?_
    refine Ensures.bind (h.object _) fun array harray => ?_
    exact Ensures.bind (objectElement_in hU harray) fun t ht => s.write_keeps h.pre ht
  | field =>
    refine Ensures.bind .found fun _ _ => Ensures.bind .found fun f hf => ?_
    exact s.write_keeps h.pre (in_ofDescriptor (hnames _ (Instruction.fieldRef_mem_names hf)))
  | construct => exact s.construct_keeps h.pre
  | bitwise _ _ =>
    refine Ensures.bind .found fun _ _ => Ensures.bind .found fun _ _ => ?_
    refine Ensures.bind .found fun _ _ => Ensures.bind .found fun _ _ => ?_
    exact s.writeDest_keeps h.pre (in_ofCategory _)
  | bitwiseLiteral =>
    refine Ensures.bind .found fun _ _ => Ensures.bind .found fun _ _ => ?_
    exact s.writeDest_keeps h.pre (in_ofCategory _)
  | shiftRight _ =>
    refine Ensures.bind .found fun _ _ => Ensures.bind .found fun _ _ => ?_
    exact s.writeDest_keeps h.pre (in_ofCategory _)

end Site

/-! ## Bounds of a session -/

/-- The types that an instruction has to do with. -/
def Point.types (p : Point) : List RegisterType :=
  p.pre ++ p.post ++ p.narrowing.elim [] fun n => n.registers.map (·.2)

theorem Point.mem_types {p : Point} {t : RegisterType} :
    t ∈ p.types ↔ t ∈ p.pre ∨ t ∈ p.post ∨
      ∃ n r, p.narrowing = some n ∧ r ∈ n.registers ∧ r.2 = t := by
  unfold Point.types
  rw [List.mem_append, List.mem_append, or_assoc]
  cases p.narrowing <;> simp

/-- Types in the set, and numbers up to the bound. -/
structure Point.Within (U : Descriptor → Prop) (bound : Nat) (p : Point) : Prop where
  types : ∀ t ∈ p.types, t.In U
  pre : p.pre.length ≤ bound
  post : p.post.length ≤ bound
  narrowing : ∀ n, p.narrowing = some n → n.target ≤ bound ∧ n.registers.length ≤ bound ∧
    ∀ r ∈ n.registers, r.1 ≤ bound

structure Instruction.Within (U : Descriptor → Prop) (bound : Nat) (i : Instruction) : Prop where
  names : ∀ d ∈ i.names, U d
  registers : ∀ r ∈ i.registers, r ≤ bound

/-- The same of the form of an instruction and of the type it was helped with. -/
structure Point.Framed (U : Descriptor → Prop) (bound : Nat) (p : Point) : Prop where
  current : p.current.Within U bound
  hint : ∀ t, p.hint = some t → t.In U

theorem Point.Framed.of_frame {U : Descriptor → Prop} {bound : Nat} {p q : Point}
    (h : p.Framed U bound) (hframe : q.frame = p.frame) : q.Framed U bound := by
  have hcurrent : q.current = p.current := congrArg (·.2.1) hframe
  have hhint : q.hint = p.hint := congrArg (·.2.2.1) hframe
  exact ⟨hcurrent ▸ h.current, hhint ▸ h.hint⟩

/-- Classes that some handler catches. -/
def Code.caught (code : Code) : List Descriptor :=
  (code.tries.flatMap (·.handlers)).map fun h => h.type.getD Descriptor.throwable

/-- The same of what stays during an analysis. -/
structure MethodContext.Within (U : Descriptor → Prop) (bound : Nat) (c : MethodContext) :
    Prop where
  closed : c.path.Closed U
  start : ∀ t ∈ c.start, t.In U
  caught : ∀ d ∈ c.code.caught, U d
  width : c.start.length ≤ bound ∧ c.code.registers ≤ bound
  addresses : c.graph.addresses.length ≤ bound
  indices : c.code.instructions.length ≤ bound
  two : 2 ≤ bound

/-! ## What a branch learns -/

namespace Narrowing

variable {c : MethodContext} {points : List Point} {ix : Nat}

theorem SucceedsAt.le {branch : Instruction} {t : Nat} (h : SucceedsAt c ix branch t) :
    t = ix + 1 ∨ t < c.graph.addresses.length := by
  obtain ⟨distance, target, -, htarget, -, rfl⟩ := h
  split
  · exact .inl rfl
  · exact .inr (List.findIdx?_eq_some_iff_findIdx_eq.1 htarget).1

variable {U : Descriptor → Prop} {bound : Nat}

theorem afterCheck_within (hc : c.Within U bound) (hix : ix < bound)
    (hforms : ∀ p ∈ points, p.current.Within U bound) {m : Memo} {n : Narrowing}
    (h : ((afterCheck c points ix).run m).1 = some n) :
    (∀ r ∈ n.registers, r.2.In U) ∧ n.target ≤ bound ∧ n.registers.length ≤ bound ∧
      ∀ r ∈ n.registers, r.1 ≤ bound := by
  obtain ⟨p, check, tested, object, type, known, -, -, hbefore, -, -, -, -, hside, hregisters⟩ :=
    afterCheck_some h
  -- the check names the class and the register, a move before it the other one
  obtain ⟨-, -, -, q, hq, -, -, hobject, htype⟩ := checkBefore?_eq_some hbefore
  have hcheck := hforms q (List.mem_of_getElem? hq)
  have hall : ∀ r ∈ object :: (copiedFrom? c points check tested object known).toList,
      r ≤ bound := by
    refine List.forall_mem_cons.2
      ⟨hcheck.registers object (List.mem_of_getElem? hobject), fun r hr => ?_⟩
    obtain ⟨-, -, _, q', -, hq', -, -, hsource⟩ := copiedFrom?_eq_some (Option.mem_toList.1 hr)
    exact (hforms q' (List.mem_of_getElem? hq')).registers r (List.mem_of_getElem? hsource)
  rw [hregisters]
  refine ⟨fun r hr => ?_, ?_, ?_, fun r hr => ?_⟩
  · obtain ⟨r', -, rfl⟩ := List.mem_map.1 hr
    exact RegisterType.in_reference (hcheck.names type (Instruction.typeRef_mem_names htype))
  · rcases hside.le with hnext | hlt
    · rw [hnext]
      exact hix
    · exact Nat.le_trans (Nat.le_of_lt hlt) hc.addresses
  · rw [List.length_map, List.length_cons]
    have hone : ((copiedFrom? c points check tested object known).toList).length ≤ 1 := by
      cases copiedFrom? c points check tested object known <;> simp
    exact Nat.le_trans (Nat.succ_le_succ hone) hc.two
  · obtain ⟨r', hr', rfl⟩ := List.mem_map.1 hr
    exact hall r' hr'

end Narrowing

namespace Session

variable {U : Descriptor → Prop} {bound : Nat} {c : MethodContext}

/-! ## States -/

theorem flowing?_in {points : List Point} (h : ∀ p ∈ points, p.Within U bound) {t : Nat}
    {e : Edge} {ts : List RegisterType} (hflow : flowing? points t e = some ts) :
    ∀ u ∈ ts, u.In U := by
  have hset : ∀ {rs : List (Nat × RegisterType)}, (∀ r ∈ rs, r.2.In U) →
      ∀ {ts : List RegisterType}, (∀ u ∈ ts, u.In U) →
      ∀ u ∈ rs.foldl (fun post r => post.set r.1 r.2) ts, u.In U := by
    intro rs hrs
    induction rs with
    | nil => exact fun hts => hts
    | cons r rs ih =>
      obtain ⟨hr, hrs⟩ := List.forall_mem_cons.1 hrs
      intro ts hts
      refine ih hrs fun u hu => ?_
      rcases List.mem_or_eq_of_mem_set hu with hu | rfl
      · exact hts u hu
      · exact hr
  unfold flowing? at hflow
  split at hflow
  · cases hflow
  · rename_i p hp
    have htypes := (h p (List.mem_of_getElem? hp)).types
    have hpost : ∀ u ∈ p.post, u.In U := fun u hu => htypes u (Point.mem_types.2 (.inr (.inl hu)))
    split at hflow
    · split at hflow
      · cases hflow
        exact fun u hu => htypes u (Point.mem_types.2 (.inl hu))
      · cases hflow
    · split at hflow
      · split at hflow
        · rename_i n hn
          split at hflow
          · cases hflow
            refine hset (fun r hr => htypes r.2 ?_) hpost
            exact Point.mem_types.2 (.inr (.inr ⟨n, r, hn, hr, rfl⟩))
          · cases hflow
            exact hpost
        · cases hflow
          exact hpost
      · cases hflow

theorem mergedPre_in (hc : c.Within U bound) {points : List Point}
    (h : ∀ p ∈ points, p.Within U bound) (ix : Nat) (m : Memo) :
    ∀ t ∈ ((mergedPre c points ix).run m).1, t.In U := by
  have hfold : ∀ {flows : List (List RegisterType)}, (∀ ts ∈ flows, ∀ t ∈ ts, t.In U) →
      ∀ {start : List RegisterType}, (∀ t ∈ start, t.In U) → ∀ m,
      ∀ t ∈ ((flows.foldlM (RegisterType.mergeAll c.path) start).run m).1, t.In U := by
    intro flows hflows
    induction flows with
    | nil => exact fun hstart _ => hstart
    | cons flow flows ih =>
      obtain ⟨hflow, hflows⟩ := List.forall_mem_cons.1 hflows
      intro start hstart m
      rw [List.foldlM_cons, Query.run_bind]
      exact ih hflows (RegisterType.mergeAll_in hc.closed hstart hflow m) _
  refine hfold (fun ts hts => ?_) ?_ m
  · obtain ⟨e, -, he⟩ := List.mem_filterMap.1 hts
    exact flowing?_in h he
  · split
    · exact hc.start
    · intro t ht
      rw [(List.mem_replicate.1 ht).2]
      exact RegisterType.in_ofCategory .unknown

theorem within_updatePre (hc : c.Within U bound) {s : Session}
    (h : ∀ p ∈ s.points, p.Within U bound) {t : Nat} (ht : t < s.points.length) :
    ∀ p ∈ (updatePre c s t).points, p.Within U bound := by
  rcases updatePre_cases c ht with ⟨-, -, hs⟩ | hs
  · rw [hs]
    exact h
  · rw [hs]
    intro p hp
    rcases List.mem_or_eq_of_mem_set hp with hp | rfl
    · exact h p hp
    · have hold := h _ (List.mem_of_getElem? (getElem?_points ht))
      refine ⟨fun u hu => ?_, ?_, hold.post, hold.narrowing⟩
      · rcases Point.mem_types.1 hu with hu | hu
        · exact mergedPre_in hc h t s.memo u hu
        · exact hold.types u (Point.mem_types.2 (.inr hu))
      · dsimp only
        rw [mergedPre_length]
        unfold startOf
        split
        · exact hc.width.1
        · rw [List.length_replicate]
          exact hc.width.2

theorem within_foldl (hc : c.Within U bound) {s : Session}
    (h : ∀ p ∈ s.points, p.Within U bound) {ts : List Nat} (hts : ∀ t ∈ ts, t < s.points.length) :
    ∀ p ∈ (ts.foldl (updatePre c) s).points, p.Within U bound := by
  induction ts generalizing s with
  | nil => exact h
  | cons t ts ih =>
    obtain ⟨ht, hts⟩ := List.forall_mem_cons.1 hts
    refine ih (within_updatePre hc h ht) fun t' ht' => ?_
    rw [length_updatePre]
    exact hts t' ht'

/-! ## Visits -/

theorem reads_site (hc : c.Within U bound) {s : Session} {ix : Nat} (hix : ix < s.points.length)
    (hframed : ∀ p ∈ s.points, p.Framed U bound) (h : ∀ p ∈ s.points, p.Within U bound) :
    (site c s.points ix (s.point ix)).Reads U := by
  have hp := List.mem_of_getElem? (getElem?_points hix)
  refine ⟨fun t ht => ?_, (hframed _ hp).hint, fun i hi => ?_, fun d hd => ?_⟩
  · exact (h _ hp).types t (Point.mem_types.2 (.inl ht))
  · have hi : (if ix = 0 then none else (s.points[ix - 1]?).map (·.current)) = some i := hi
    split at hi
    · cases hi
    · obtain ⟨q, hq, rfl⟩ := Option.map_eq_some_iff.1 hi
      exact (hframed q (List.mem_of_getElem? hq)).current.names
  · obtain ⟨handler, hhandler, rfl⟩ := List.mem_map.1 hd
    exact hc.caught _ (List.mem_map.2 ⟨handler, (List.mem_filter.1 hhandler).1, rfl⟩)

theorem Visit.within_point (hc : c.Within U bound) {s s₁ : Session} {ix : Nat} {ts : List Nat}
    (hix : ix < s.points.length) (hbound : ix < bound) (hvisit : Visit c ix s s₁ ts)
    (hframe : s₁.points.map Point.frame = s.points.map Point.frame)
    (hframed : ∀ p ∈ s.points, p.Framed U bound) (h : ∀ p ∈ s.points, p.Within U bound) :
    (s₁.point ix).Within U bound := by
  have hp := List.mem_of_getElem? (getElem?_points hix)
  have hold := h _ hp
  have hcurrent : (s₁.point ix).current = (s.point ix).current :=
    congrArg (·.2.1) (point_map_eq hframe ix)
  cases hvisit with
  | passed =>
    rw [point_set_self (s := s) rfl hix]
    exact ⟨hold.types, hold.pre, hold.post, hold.narrowing⟩
  | @analyzed queue cur post narrowing memo hqueue hthrowing heffect hmemo hlearned =>
    rw [point_set_self (s := s) rfl hix] at hcurrent ⊢
    -- the form was kept, so it was plain before and its rule was applied as it is
    obtain ⟨hplain, -⟩ := Site.transfer_ok _ heffect
    have hcurrent : cur = (s.point ix).current := hcurrent
    have hplain : (s.point ix).current.Plain := hcurrent ▸ hplain
    rw [Site.transfer_plain _ hplain] at heffect
    injection heffect with _ heffect
    obtain ⟨hlength, hpost⟩ := (Site.apply_keeps _ hc.closed (reads_site hc hix hframed h)
      (hframed _ hp).current.names s.memo).1 post heffect
    have hnarrowing : ∀ n, narrowing = some n →
        (∀ r ∈ n.registers, r.2.In U) ∧ n.target ≤ bound ∧ n.registers.length ≤ bound ∧
          ∀ r ∈ n.registers, r.1 ≤ bound := by
      rintro n rfl
      rcases hlearned with ⟨-, hsame⟩ | ⟨-, p', hp', -, hcheck⟩
      · have hsame : (s.point ix).narrowing = some n := hsame.symm
        refine ⟨fun r hr => hold.types r.2 ?_, hold.narrowing n hsame⟩
        exact Point.mem_types.2 (.inr (.inr ⟨n, r, hsame, hr, rfl⟩))
      · refine Narrowing.afterCheck_within hc hbound (fun q hq => ?_) hcheck.symm
        rcases List.mem_or_eq_of_mem_set hq with hq | rfl
        · exact (hframed q hq).current
        · rw [hp']
          exact hcurrent ▸ (hframed _ hp).current
    refine ⟨fun t ht => ?_, hold.pre, ?_, fun n hn => (hnarrowing n hn).2⟩
    · rcases Point.mem_types.1 ht with ht | ht | ⟨n, r, hn, hr, rfl⟩
      · exact hold.types t (Point.mem_types.2 (.inl ht))
      · exact hpost t ht
      · exact (hnarrowing n hn).1 r hr
    · exact Nat.le_trans (Nat.le_of_eq hlength) hold.pre
  | parked =>
    rw [point_set_self (s := s) rfl hix]
    refine ⟨fun t ht => ?_, hold.pre, hold.pre, hold.narrowing⟩
    rcases Point.mem_types.1 ht with ht | ht | ht
    · exact hold.types t (Point.mem_types.2 (.inl ht))
    · exact hold.types t (Point.mem_types.2 (.inl ht))
    · exact hold.types t (Point.mem_types.2 (.inr (.inr ht)))

/-- A visit that keeps all forms stays within the bounds. -/
theorem Visit.within (hc : c.Within U bound) (hbuilt : c.Built) {memo : Memo} {s s₁ : Session}
    {ix : Nat} {ts : List Nat} (hsound : Sound c memo s) (hix : ix < s.points.length)
    (hvisit : Visit c ix s s₁ ts)
    (hframe : s₁.points.map Point.frame = s.points.map Point.frame)
    (hframed : ∀ p ∈ s.points, p.Framed U bound) (h : ∀ p ∈ s.points, p.Within U bound) :
    ∀ p ∈ (ts.foldl (updatePre c) s₁).points, p.Within U bound := by
  have hbound : ix < bound := Nat.lt_of_lt_of_le (hsound.length ▸ hix) hc.indices
  have hpoint := hvisit.within_point hc hix hbound hframe hframed h
  have hlocal : ∀ p ∈ s₁.points, p.Within U bound := by
    intro p hp
    obtain ⟨j, hj⟩ := List.mem_iff_getElem?.1 hp
    obtain ⟨rfl, hlt⟩ := point_eq_of_getElem? hj
    by_cases hjix : j = ix
    · rw [hjix]
      exact hpoint
    · obtain ⟨q, hq⟩ := hvisit.localChange.points
      rw [hvisit.localChange.length] at hlt
      rw [point_set_ne hq hjix]
      exact h _ (List.mem_of_getElem? (getElem?_points hlt))
  refine within_foldl hc hlocal fun t ht => ?_
  exact (hsound.visit hbuilt hix hvisit).1.target_lt hbuilt (hvisit.targets t ht)

end Session

end SymbolicDex
