import SymbolicDex.Proofs.Analysis.Bookkeeping

/- Instructions that wait. One that waits without a failure is an access, and the
   reason is that its object is null. One that was analysed never waits so again.

   What is proved:
     1. `Site.transfer_null`: what waits without a failure has null as its object.
     2. `Steps.awaitsNull`: so at every step what waits so and is not queued has
        null in its object register.
     3. `Steps.never_analyzed`: what is given up in the end was analysed at no
        time. -/
namespace SymbolicDex

/-! ## Waiting without a failure -/

namespace Site

open Rule

variable (s : Site)

/-- Waits with a failure, or for an object that is null. -/
def WaitsForNull (r : Nat) (f : Option AnalysisFailure) : Prop :=
  f = none → (s.objectIn r).map (·.category) = some .null

theorem waits_failure {r : Nat} (f : AnalysisFailure) :
    Waits s.WaitsForNull (.parked r (some f)) := waits_parked fun h => nomatch h

theorem objectClass_null (opcode : Opcode) (r : Nat) :
    Ensures (s.objectClass opcode r) (fun _ => True) (Waits s.WaitsForNull) := by
  unfold objectClass
  rw [objectType_eq]
  refine Ensures.bind need_ensures fun t ht => ?_
  have hclass {d : Descriptor} : Ensures (if d = Descriptor.unknown then
      Rule.park r (some (.nonReference opcode t)) else pure d : Rule Descriptor)
      (fun _ => True) (Waits s.WaitsForNull) :=
    Ensures.ite (fun _ => Ensures.throw (s.waits_failure _)) fun _ => Ensures.pure trivial
  split
  · rename_i hnull
    refine Ensures.throw (waits_parked fun _ => ?_)
    rw [ht, Option.map_some, hnull]
  · exact hclass
  · exact hclass
  · exact hclass
  · exact Ensures.throw (s.waits_failure _)

theorem lookup_null {α : Type} (r : Nat) (l : Lookup α) :
    Ensures (lookup r l) (fun _ => True) (Waits s.WaitsForNull) := by
  refine Ensures.bind (ask_ensures _) fun answer _ => ?_
  split
  · exact Ensures.pure trivial
  · exact Ensures.throw (s.waits_failure _)
  · exact Ensures.throw waits_endless

theorem restoreQuickField_null (i : Instruction) :
    Ensures (s.restoreQuickField i) (fun _ => True) (Waits s.WaitsForNull) := by
  unfold restoreQuickField
  dsimp only
  split
  · refine Ensures.bind (Ensures.pure trivial) fun offset (_ : True) => ?_
    refine Ensures.bind need_ensures fun register _ => ?_
    refine Ensures.bind (s.objectClass_null _ _) fun object _ => ?_
    refine Ensures.bind (s.lookup_null _ _) fun field _ => ?_
    split
    · exact Ensures.pure trivial
    · exact Ensures.throw (s.waits_failure _)
  · exact Ensures.bind (Ensures.fail (waits_failed _) : Ensures _ (fun _ => False) _)
      fun _ h => h.elim

theorem restoreQuickCall_null (i : Instruction) :
    Ensures (s.restoreQuickCall i) (fun _ => True) (Waits s.WaitsForNull) := by
  refine Ensures.bind vtableIndex_ensures fun index _ => ?_
  refine Ensures.bind need_ensures fun register _ => ?_
  refine Ensures.bind (s.objectClass_null _ _) fun object _ => ?_
  exact Ensures.bind (s.lookup_null _ _) fun method _ => Ensures.pure trivial

/-- An access that waits without a failure has null as its object. -/
theorem transfer_null {m : Memo} {i : Instruction} {r : Nat}
    (h : (s.transfer.run m).1 = ⟨i, .error (.parked r none)⟩) :
    (s.objectIn r).map (·.category) = some .null := by
  have hneeds := Instruction.needsObject_of_objectRegister? (s.transfer_parked h)
  have hnull : Ensures (s.restore s.current) (fun _ => True) (Waits s.WaitsForNull) := by
    rw [restore_eq]
    rcases hneeds with hform | hform <;> rw [hform]
    · exact Ensures.bind (s.restoreQuickField_null _) fun _ _ => Ensures.pure trivial
    · exact Ensures.bind (s.restoreQuickCall_null _) fun _ _ => Ensures.pure trivial
  rcases s.transfer_cases m with ⟨e, he, heffect⟩ | ⟨j, -, heffect⟩ | ⟨j, -, heffect, -⟩
  · rw [heffect] at h
    injection h with _ h
    cases h
    exact (hnull m).2 _ he r none rfl rfl
  · rw [heffect] at h
    injection h with _ h
    cases h
  · rw [heffect] at h
    injection h with _ h
    obtain ⟨-, hfailure⟩ := (s.apply_ensures j _).2 _ h r none rfl
    cases hfailure

end Site

namespace Session

variable {c : MethodContext} {memo : Memo} {s s₁ : Session} {ix : Nat} {ts : List Nat}

/-! ## Properties of instructions along a run -/

section

variable {P : Nat → Status → Prop}

theorem Everywhere.visit (hc : c.Built) (hP : Stable c P) (h : Everywhere P s)
    (hsound : Sound c memo s) (hix : ix < s.points.length) (hvisit : Visit c ix s s₁ ts)
    (hkept : P ix (s₁.status ix)) : Everywhere P (ts.foldl (updatePre c) s₁) :=
  (h.localChange hP hvisit.localChange hkept).foldl hP fun t ht =>
    (hsound.visit hc hix hvisit).1.target_lt hc (hvisit.targets t ht)

theorem Everywhere.aid (hc : c.Built) (hP : Stable c P) (h : Everywhere P s)
    (hsound : Sound c memo s) (hix : ix < s.points.length) (haid : Aid c ix s s₁ ts)
    (hkept : P ix (s₁.status ix)) : Everywhere P (ts.foldl (updatePre c) s₁) :=
  (h.localChange hP haid.localChange hkept).foldl hP fun t ht =>
    (hsound.aid hc hix haid).1.target_lt hc (haid.targets t ht)

/-- A stable property holds from a session on, if moves at the instruction keep
    it. -/
theorem Steps.everywhere_after (hc : c.Built) (hP : Stable c P)
    (hvisit : ∀ {s s₁ ix ts}, Sound c memo s → ix < s.points.length → P ix (s.status ix) →
      Visit c ix s s₁ ts → P ix (s₁.status ix))
    (haid : ∀ {s s₁ ix ts}, Sound c memo s → ix < s.points.length → P ix (s.status ix) →
      Aid c ix s s₁ ts → P ix (s₁.status ix))
    {t : Session} (hsound : Sound c memo t) (hall : Everywhere P t) {count : Nat}
    (h : Steps c t count s) : Sound c memo s ∧ Everywhere P s := by
  induction h with
  | start => exact ⟨hsound, hall⟩
  | next _ hstep ih =>
    obtain ⟨hsound, hall⟩ := ih
    rcases step_inv hsound.range hsound.hints hstep with ⟨ix, s₁, ts, hix, hone, rfl⟩ | ⟨-, haids⟩
    · exact ⟨(hsound.visit hc hix hone).2,
        hall.visit hc hP hsound hix hone (hvisit hsound hix (hall ix hix) hone)⟩
    · exact haids.aids.invariant hc (fun hsound hix hall hone =>
        hall.aid hc hP hsound hix hone (haid hsound hix (hall _ hix) hone)) hsound hall

end

/-! ## What waits without a failure -/

/-- What waits without a failure, and has not got a new state since, has null in
    its object register. -/
structure AwaitsNull (st : Status) : Prop where
  /-- Only what was restored has got a type from elsewhere. -/
  hinted : st.point.hint.isSome → st.point.current.Plain
  object : ∀ r, st.point.parked = some ⟨r, none⟩ → ¬st.queued →
    (st.point.pre[r]?).map (·.category) = some .null

namespace AwaitsNull

theorem stable (c : MethodContext) : Stable c fun _ => AwaitsNull where
  grows h _ _ := ⟨h.hinted, h.object⟩
  refreshed h _ := ⟨h.hinted, fun _ _ hqueued => absurd trivial hqueued⟩

theorem visit (h : AwaitsNull (s.status ix)) (hsound : Sound c memo s)
    (hix : ix < s.points.length) (hvisit : Visit c ix s s₁ ts) : AwaitsNull (s₁.status ix) := by
  have hok := hsound.points ix hix
  cases hvisit with
  | passed hqueue hthrowing =>
    rw [status_set hix]
    refine ⟨h.hinted, fun r hparked => ?_⟩
    have hparked : (s.point ix).parked = some ⟨r, none⟩ := hparked
    have hnone : (s.point ix).throwing = none :=
      (hok.parked (by rw [status_point, hparked]; rfl)).2
    rw [hnone] at hthrowing
    cases hthrowing
  | analyzed hqueue hthrowing heffect =>
    rw [status_set hix]
    exact ⟨fun _ => (Site.transfer_ok _ heffect).1, fun _ hparked => nomatch hparked⟩
  | parked hqueue hthrowing heffect =>
    rw [status_set hix]
    refine ⟨fun hhint => ?_, fun r hparked _ => ?_⟩
    · rcases Site.transfer_error _ heffect with ⟨hcur, -⟩ | ⟨hplain, -⟩
      · exact hcur ▸ h.hinted hhint
      · exact hplain
    · cases hparked
      -- an access that waits has no type from elsewhere, so it reads its register
      have hneeds := Instruction.needsObject_of_objectRegister? (Site.transfer_parked _ heffect)
      have hhint : (s.point ix).hint = none := by
        cases hsome : (s.point ix).hint with
        | none => rfl
        | some t =>
          have hplain := h.hinted (by rw [status_point, hsome]; rfl)
          exact absurd hneeds hplain.not_needsObject
      have hnull := Site.transfer_null _ heffect
      rw [Site.objectIn, show (site c s.points ix (s.point ix)).hint = none from hhint,
        Option.none_or] at hnull
      exact hnull

theorem aid (h : AwaitsNull (s.status ix)) (hix : ix < s.points.length)
    (haid : Aid c ix s s₁ ts) : AwaitsNull (s₁.status ix) := by
  cases haid with
  | tried =>
    rw [status_set hix]
    exact ⟨h.hinted, h.object⟩
  | unhelped =>
    rw [status_set hix]
    exact ⟨fun hhint => (nomatch hhint), h.object⟩
  | helped _ _ _ heffect =>
    rw [status_set hix]
    exact ⟨fun _ => (Site.transfer_ok _ heffect).1, fun _ hparked => nomatch hparked⟩
  | gaveUp =>
    rw [status_set hix]
    exact ⟨h.hinted, fun _ hparked => nomatch hparked⟩

end AwaitsNull

theorem Steps.awaitsNull (hc : c.Built) {count : Nat}
    (h : Steps c (Session.initial c memo) count s) : Everywhere (fun _ => AwaitsNull) s :=
  (h.everywhere_after hc (AwaitsNull.stable c)
    (fun hsound hix h hvisit => h.visit hsound hix hvisit)
    (fun _ hix h haid => h.aid hix haid) (Sound.initial c memo)
    (Everywhere.initial (AwaitsNull.stable c) fun _ _ _ =>
      ⟨fun hhint => (nomatch hhint), fun _ hparked => nomatch hparked⟩)).2

/-! ## What was analysed -/

/-- The instruction was restored, or was plain, and is not about to be given up. -/
structure Done (st : Status) : Prop where
  plain : st.point.current.Plain
  throwing : st.point.throwing = none
  parked : ∀ r, st.point.parked ≠ some ⟨r, none⟩

namespace Done

theorem of_analyzed (hsound : Sound c memo s) (hix : ix < s.points.length)
    (h : (s.point ix).analyzed = true) : Done (s.status ix) := by
  have hok := hsound.points ix hix
  refine ⟨hok.plain h, ?_, fun r hparked => ?_⟩
  · cases hthrowing : (s.status ix).point.throwing with
    | none => rfl
    | some r => exact nomatch h.symm.trans (hok.throwing (by rw [hthrowing]; rfl))
  · exact nomatch h.symm.trans (hok.parked (by rw [hparked]; rfl)).1

theorem visit (h : Done (s.status ix)) (hix : ix < s.points.length)
    (hvisit : Visit c ix s s₁ ts) : Done (s₁.status ix) := by
  cases hvisit with
  | passed =>
    rw [status_set hix]
    exact ⟨h.plain, h.throwing, h.parked⟩
  | analyzed _ _ heffect =>
    rw [status_set hix]
    exact ⟨(Site.transfer_ok _ heffect).1, h.throwing, fun _ hparked => nomatch hparked⟩
  | parked _ _ heffect =>
    rw [status_set hix]
    rcases Site.transfer_error _ heffect with ⟨-, hneeds⟩ | ⟨hplain, -, -, -, -, hreads⟩
    · exact absurd (hneeds _ _ rfl) h.plain.not_needsObject
    -- a plain instruction waits with a failure
    · refine ⟨hplain, h.throwing, fun r hparked => ?_⟩
      cases hparked
      cases (hreads _ _ rfl).2

theorem aid (h : Done (s.status ix)) (hix : ix < s.points.length) (haid : Aid c ix s s₁ ts) :
    Done (s₁.status ix) := by
  cases haid with
  | tried =>
    rw [status_set hix]
    exact ⟨h.plain, h.throwing, h.parked⟩
  | unhelped _ _ heffect =>
    rw [status_set hix]
    rcases Site.transfer_error _ heffect with ⟨hcur, -⟩ | ⟨hplain, -⟩
    · exact ⟨hcur ▸ h.plain, h.throwing, h.parked⟩
    · exact ⟨hplain, h.throwing, h.parked⟩
  | helped _ _ _ heffect =>
    rw [status_set hix]
    exact ⟨(Site.transfer_ok _ heffect).1, h.throwing, fun _ hparked => nomatch hparked⟩
  | gaveUp hparked => exact absurd hparked (h.parked _)

end Done

/-- What is marked at the end was analysed at no time. -/
theorem Steps.never_analyzed (hc : c.Built) {count k : Nat} {t : Session}
    (h : Steps c (Session.initial c memo) count s) (ht : Steps c (Session.initial c memo) k t)
    (hk : k ≤ count) (hix : ix < s.points.length) (hthrowing : (s.point ix).throwing.isSome) :
    (t.point ix).analyzed = false := by
  by_contra hanalyzed
  have hlength : s.points.length = t.points.length :=
    (h.sound hc).length.trans (ht.sound hc).length.symm
  have hstable : Stable c fun j st => j = ix → Done st :=
    { grows := fun hdone _ _ hj => ⟨(hdone hj).plain, (hdone hj).throwing, (hdone hj).parked⟩
      refreshed := fun hdone _ hj => ⟨(hdone hj).plain, (hdone hj).throwing, (hdone hj).parked⟩ }
  have hdone : Done (s.status ix) :=
    ((h.between ht hk).everywhere_after hc hstable
      (fun _ hix hdone hvisit hj => (hdone hj).visit hix hvisit)
      (fun _ hix hdone haid hj => (hdone hj).aid hix haid) (ht.sound hc) (fun j hj hjix => by
        subst hjix
        exact .of_analyzed (ht.sound hc) hj (by simpa using hanalyzed))).2 ix hix rfl
  rw [show (s.point ix).throwing = none from hdone.throwing] at hthrowing
  cases hthrowing

end Session

end SymbolicDex
