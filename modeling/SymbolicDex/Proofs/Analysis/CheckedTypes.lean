import SymbolicDex.Analysis.Narrowing
import SymbolicDex.Proofs.Hierarchy.CommonSupertypes

/- What a branch learns from the check before it. A type is narrowed to the checked
   class only if the class is a subtype of what was known, and an override gives the
   class to the checked register and to a copy of it.

   What is proved:
     1. `commonSuperclass_subtype`: one of two types is their common supertype only
        if the other is a subtype of it, or it is unknown.
     2. `keepsOrTightens_gives`: so no class that is known gets a wider one.
     3. `afterCheck_some`: what an override says of the instructions around the
        branch. -/
namespace SymbolicDex

open Query

/-! ## Subtypes -/

namespace ClassPath

variable {p : ClassPath} {a b : Descriptor}

/-- `a` is a subtype of `b`. What stands under the dimensions of an array counts as a
    class unless it is a primitive type, so an array of what is no type at all is
    below the arrays of objects too. -/
def SubtypeOf (p : ClassPath) (a b : Descriptor) : Prop :=
  p.IsA a b ∨ (a.element.isReference = false ∧ a.element.isPrimitive = false) ∧
    ∃ n ≤ a.dimensions, b = Descriptor.arrayOf n Descriptor.object

/-- A well-formed type is a subtype of what the declarations put above it. -/
theorem SubtypeOf.isA (h : p.SubtypeOf a b) (ha : a.WellFormed) : p.IsA a b := by
  rcases h with h | ⟨⟨hreference, hprimitive⟩, -⟩
  · exact h
  · rcases ha.element with h | h
    · cases hreference.symm.trans h
    · cases hprimitive.symm.trans h

theorem subtypeOf_objects {n : Nat} (ha : a.isArray = true) (hn : n ≤ objectDimensions a) :
    p.SubtypeOf a (Descriptor.arrayOf n Descriptor.object) := by
  by_cases helement : a.element.isReference = true ∨ a.element.isPrimitive = true
  · exact .inl (isA_objects ha helement hn)
  · rw [not_or, Bool.not_eq_true, Bool.not_eq_true] at helement
    exact .inr ⟨helement, n, Nat.le_trans hn (objectDimensions_le a), rfl⟩

/-- If the common supertype is `b`, it is above `a`, well-formed or not. -/
theorem commonSuperclass_subtype (a b : Descriptor) :
    Gives (Recalling p.OnlyAbove) (fun r => r = b → b = Descriptor.unknown ∨ p.SubtypeOf a b)
      (p.commonSuperclass a b) := by
  have hbounds {q : Query Descriptor} (hq : Gives (Recalling p.OnlyAbove) (p.Bounds a b) q) :
      Gives (Recalling p.OnlyAbove) (fun r => r = b → b = Descriptor.unknown ∨ p.SubtypeOf a b)
        q := by
    refine hq.mono fun r hr hrb => ?_
    subst hrb
    exact hr.imp_right fun habove => .inl habove.1
  simp only [commonSuperclass]
  refine Gives.ite (fun hab => Gives.pure fun _ => .inr (.inl (hab ▸ .refl a))) fun _ =>
    Gives.ite (fun _ => Gives.pure fun hr => ?_) fun _ => Gives.ite (fun ha =>
      Gives.ite (fun _ => ?_) fun _ => hbounds (commonOfArrayAndClass_bounds a b)) fun _ =>
      Gives.ite (fun _ => hbounds ((commonOfArrayAndClass_bounds b a).mono fun _ => Bounds.symm))
        fun _ => hbounds (commonOfClasses_bounds a b)
  · split at hr
    · exact hr ▸ .inr (.inl (.object a))
    · exact .inl hr.symm
  · simp only [commonOfArrays]
    refine Gives.ite (fun hsame => ?_) fun _ => Gives.pure fun hr =>
      hr ▸ .inr (subtypeOf_objects ha (Nat.min_le_left _ _))
    obtain ⟨-, hreference, -⟩ := hsame
    refine Gives.bind (commonOfClasses_bounds a.element b.element) fun e he =>
      Gives.pure fun hr => ?_
    split at hr
    · exact .inl hr.symm
    · next hknown =>
      have habove := ((he.resolve_left hknown).1).arrayOf a.dimensions hreference
      rw [← a.eq_arrayOf, hr] at habove
      exact .inr (.inl habove)

end ClassPath

/-! ## Narrowing -/

/-- A value of a type that has a class is a reference to that class. -/
theorem RegisterType.ofDescriptor_of_cls {t d : Descriptor} (h : (ofDescriptor t).cls = some d) :
    ofDescriptor t = reference t ∧ d = t := by
  revert h
  unfold ofDescriptor
  repeat' split
  all_goals
    intro h
    cases h
  exact ⟨rfl, rfl⟩

namespace Narrowing

/-- To take a register of type `known` for an instance of `d` widens nothing. -/
inductive Tightens (p : ClassPath) (known : RegisterType) (d : Descriptor) : Prop where
  | null (hnull : known.category = .null)
  | classless (hreference : known.category = .reference) (hcls : known.cls = none)
  | unknown (hreference : known.category = .reference)
      (hcls : known.cls = some Descriptor.unknown)
  | subtype {e : Descriptor} (hreference : known.category = .reference)
      (hcls : known.cls = some e) (hsubtype : p.SubtypeOf d e)

theorem Tightens.known {p : ClassPath} {known : RegisterType} {d : Descriptor}
    (h : Tightens p known d) : known.category ≠ .unknown := by
  cases h with
  | null hnull => rw [hnull]; nofun
  | classless hreference | unknown hreference | subtype hreference => rw [hreference]; nofun

theorem keepsOrTightens_gives (p : ClassPath) (known : RegisterType) (d : Descriptor) :
    Gives (ClassPath.Recalling p.OnlyAbove) (fun kept => kept = true → Tightens p known d)
      (keepsOrTightens p known d) := by
  unfold keepsOrTightens
  split
  · next hnull => exact Gives.pure fun _ => .null hnull
  · next hreference hcls => exact Gives.pure fun _ => .classless hreference hcls
  · next e hreference hcls =>
    split
    · refine Gives.bind (ClassPath.implements_isA d e) fun answer hanswer => ?_
      split
      · exact Gives.pure fun _ => .subtype hreference hcls (.inl (hanswer rfl))
      · exact Gives.pure nofun
    · refine Gives.bind (ClassPath.commonSuperclass_subtype d e) fun r hr => Gives.pure fun h => ?_
      rcases hr (beq_iff_eq.1 h) with rfl | hsubtype
      · exact .unknown hreference hcls
      · exact .subtype hreference hcls hsubtype
    · exact Gives.pure nofun
  · exact Gives.pure nofun

/-! ## Overrides -/

variable {c : MethodContext} {points : List Point} {ix : Nat}

theorem checkBefore?_eq_some {check tested object : Nat} {type : Descriptor}
    (h : checkBefore? c points ix = some (check, tested, object, type)) :
    c.graph.predecessors ix = [⟨check, false⟩] ∧ tested ≠ object ∧
      (∃ p, points[ix]? = some p ∧ p.current.register? 0 = some tested) ∧
      ∃ p, points[check]? = some p ∧ p.current.opcode = .instanceOf ∧
        p.current.register? 0 = some tested ∧ p.current.register? 1 = some object ∧
        p.current.typeRef? = some type := by
  unfold checkBefore? at h
  split at h
  · next e he =>
    simp only [Option.bind_eq_bind, Option.bind_eq_some_iff] at h
    obtain ⟨branch, hbranch, p, hp, tested', htested, object', hobject, type', htype, h⟩ := h
    split at h
    · cases h
    · next hnot =>
      cases h
      simp only [Bool.or_eq_true, decide_eq_true_eq, not_or, not_not, Bool.not_eq_true] at hnot
      obtain ⟨⟨⟨hnormal, hopcode⟩, hreads⟩, hdistinct⟩ := hnot
      refine ⟨?_, hdistinct, ⟨branch, hbranch, hreads⟩, p, hp, hopcode, htested, hobject, htype⟩
      rw [he, ← hnormal]
  · cases h

theorem copiedFrom?_eq_some {check tested object source : Nat} {known : RegisterType}
    (h : copiedFrom? c points check tested object known = some source) :
    source ≠ tested ∧ (points[check]?).bind (·.pre[source]?) = some known ∧
      ∃ move p, c.graph.predecessors check = [⟨move, false⟩] ∧ points[move]? = some p ∧
        Recovery.isMoveObject p.current.opcode = true ∧ p.current.register? 0 = some object ∧
        p.current.register? 1 = some source := by
  unfold copiedFrom? at h
  split at h
  · next e he =>
    simp only [Option.bind_eq_bind, Option.bind_eq_some_iff] at h
    obtain ⟨copy, hcopy, source', hsource, h⟩ := h
    obtain ⟨p, hp, rfl⟩ := Option.map_eq_some_iff.1 hcopy
    split at h
    · next hall =>
      cases h
      simp only [Bool.and_eq_true, Bool.not_eq_true', beq_iff_eq, decide_eq_true_eq] at hall
      obtain ⟨⟨⟨⟨hnormal, hmove⟩, hobject⟩, hdistinct⟩, hknown⟩ := hall
      refine ⟨hdistinct, hknown, e.source, p, ?_, hp, hmove, hobject, hsource⟩
      rw [he, ← hnormal]
    · cases h
  · cases h

/-- Where a branch goes when the check succeeded: straight on with an if-eqz, to its
    target with an if-nez, the two being different. -/
def SucceedsAt (c : MethodContext) (ix : Nat) (branch : Instruction) (t : Nat) : Prop :=
  ∃ distance target, branch.target = some distance ∧
    FlowGraph.indexFrom? c.graph.addresses (c.graph.address ix) distance = some target ∧
    target ≠ ix + 1 ∧ t = if branch.opcode = .ifEqz then ix + 1 else target

theorem successSide?_eq_some {branch : Instruction} {t : Nat}
    (h : successSide? c ix branch = some t) : SucceedsAt c ix branch t := by
  unfold successSide? at h
  simp only [Option.bind_eq_bind, Option.bind_eq_some_iff] at h
  obtain ⟨distance, hdistance, target, htarget, h⟩ := h
  split at h
  · cases h
  · next hne =>
    cases h
    exact ⟨distance, target, hdistance, htarget, hne, rfl⟩

/-- An override gives the checked class to the checked register and to a copy. -/
theorem afterCheck_some {m : Memo} {n : Narrowing}
    (h : ((afterCheck c points ix).run m).1 = some n) :
    ∃ p check tested object type known, c.path.runtime.isArt = true ∧ points[ix]? = some p ∧
      checkBefore? c points ix = some (check, tested, object, type) ∧
      (RegisterType.ofDescriptor type).cls = some type ∧ c.path.isInterface type = .ok false ∧
      p.pre[object]? = some known ∧ ((keepsOrTightens c.path known type).run m).1 = true ∧
      SucceedsAt c ix p.current n.target ∧
      n.registers = (object :: (copiedFrom? c points check tested object known).toList).map
        fun r => (r, RegisterType.reference type) := by
  unfold afterCheck at h
  split at h
  · cases h
  · next hart =>
    split at h
    · next p check tested object type hp hcheck =>
      dsimp only at h
      split at h
      · next d known hcls hknown =>
        obtain ⟨hreference, rfl⟩ := RegisterType.ofDescriptor_of_cls hcls
        split at h
        · next hclass =>
          rw [run_bind] at h
          split at h
          · next hkept =>
            split at h
            · cases h
            · next target htarget =>
              cases h
              rw [hreference]
              exact ⟨p, check, tested, object, d, known, by simpa using hart, hp, hcheck,
                hcls, hclass, hknown, hkept, successSide?_eq_some htarget, rfl⟩
          · cases h
        · cases h
      · cases h
    · cases h

end Narrowing

end SymbolicDex
