import SymbolicDex.Hierarchy.Ancestry
import SymbolicDex.Hierarchy.Lookup

/- Questions to a class path over time. Every question only adds to the memo
   and takes its busy marks back (`Query.Grows`). A question is steady when its
   answer stays: asked again of any memo that has grown since, it gets the
   answer it got (`Query.Steady`). Circular declarations do not break this.
   What a class meets while it is itself busy may depend on who asked first,
   but the table of the class that was asked for is remembered and found again.

   What is proved:
     1. `once_grows`, `once_again`: a remembered computation grows the memo and
        is found again.
     2. `interfaces_steady`, `layout_steady`, `vtable_steady`: so are the three
        tables of a class, whatever they compute below.
     3. `commonSuperclass_steady`, `resolveField_steady`, `resolveMethod_steady`:
        and what is made of them. -/
namespace SymbolicDex

/-- `m'` remembers whatever `m` does and marks the same classes busy. -/
structure Memo.Grows (m m' : Memo) : Prop where
  interfaces : ∀ d a, m.interfaces.lookup d = some a → m'.interfaces.lookup d = some a
  layouts : ∀ d a, m.layouts.lookup d = some a → m'.layouts.lookup d = some a
  vtables : ∀ d a, m.vtables.lookup d = some a → m'.vtables.lookup d = some a
  busy : m'.busy = m.busy

namespace Memo.Grows

theorem refl (m : Memo) : m.Grows m :=
  ⟨fun _ _ h => h, fun _ _ h => h, fun _ _ h => h, rfl⟩

theorem trans {m m' m'' : Memo} (h : m.Grows m') (h' : m'.Grows m'') : m.Grows m'' where
  interfaces d a ha := h'.interfaces d a (h.interfaces d a ha)
  layouts d a ha := h'.layouts d a (h.layouts d a ha)
  vtables d a ha := h'.vtables d a (h.vtables d a ha)
  busy := h'.busy.trans h.busy

theorem idle {m m' : Memo} (h : m.Grows m') (hm : m.busy = []) : m'.busy = [] :=
  h.busy.trans hm

/-- Marking a class for the time of a computation leaves no trace. -/
theorem leave {m m' : Memo} {f : Facet} {d : Descriptor} (h : (m.enter f d).Grows m') :
    m.Grows (m'.leave f d) where
  interfaces := h.interfaces
  layouts := h.layouts
  vtables := h.vtables
  busy := by simp [Memo.leave, h.busy, Memo.enter]

/-- A key that was not there can be put in front. -/
theorem lookup_cons {β : Type} {t t' : List (Descriptor × β)} {d : Descriptor} (b : β)
    (h : ∀ e a, t.lookup e = some a → t'.lookup e = some a) (hd : t.lookup d = none) :
    ∀ e a, t.lookup e = some a → ((d, b) :: t').lookup e = some a := by
  intro e a he
  -- an old key is not `d`, which had no entry
  by_cases hed : e = d
  · subst hed
    rw [hd] at he
    cases he
  · rw [List.lookup_cons, show (e == d) = false by simpa using hed]
    exact h e a he

end Memo.Grows

namespace Query

variable {α β : Type}

/-- The question only adds to the memo. -/
def Grows (q : Query α) : Prop := ∀ m : Memo, m.Grows (q.run m).2

/-- The question only adds to the memo, and its answer stays. -/
structure Steady (q : Query α) : Prop where
  grows : Grows q
  again : ∀ m m', m.busy = [] → (q.run m).2.Grows m' → (q.run m').1 = (q.run m).1

theorem run_bind (q : Query α) (f : α → Query β) (m : Memo) :
    (q >>= f).run m = (f (q.run m).1).run (q.run m).2 := rfl

theorem run_pure (a : α) (m : Memo) : (pure a : Query α).run m = (a, m) := rfl

theorem Grows.pure (a : α) : Grows (pure a : Query α) := fun m => Memo.Grows.refl m

/-- What comes after a question keeps the tables that were made for it. -/
theorem Grows.rest {q : Query α} {f : α → Query β} (hf : ∀ a, Grows (f a)) (m : Memo) :
    (q.run m).2.Grows ((q >>= f).run m).2 := by
  rw [run_bind]
  exact hf _ _

theorem Grows.bind {q : Query α} {f : α → Query β} (hq : Grows q) (hf : ∀ a, Grows (f a)) :
    Grows (q >>= f) := by
  intro m
  rw [run_bind]
  exact (hq m).trans (hf _ _)

theorem Grows.ite {c : Prop} [Decidable c] {q r : Query α} (hq : Grows q) (hr : Grows r) :
    Grows (if c then q else r) := by
  by_cases h : c
  · simpa only [h, if_true] using hq
  · simpa only [h, if_false] using hr

theorem Grows.foldlM {f : β → α → Query β} (hf : ∀ b a, Grows (f b a)) (as : List α) (b : β) :
    Grows (as.foldlM f b) := by
  induction as generalizing b with
  | nil => exact Grows.pure b
  | cons a as ih =>
    rw [List.foldlM_cons]
    exact Grows.bind (hf b a) fun b => ih b

theorem Steady.pure (a : α) : Steady (Pure.pure a : Query α) :=
  ⟨Grows.pure a, fun _ _ _ _ => rfl⟩

theorem Steady.bind {q : Query α} {f : α → Query β} (hq : Steady q) (hf : ∀ a, Steady (f a)) :
    Steady (q >>= f) where
  grows := Grows.bind hq.grows fun a => (hf a).grows
  again := by
    intro m m' hm h
    rw [run_bind] at h
    rw [run_bind, run_bind]
    -- the memo that the first answer was left in has grown to `m'` too
    have hfirst := (hf (q.run m).1).grows (q.run m).2
    have hq' := hq.again m m' hm (hfirst.trans h)
    rw [hq']
    exact (hf _).again _ _ ((hq.grows m).idle hm) (h.trans (hq.grows m'))

theorem Steady.ite {c : Prop} [Decidable c] {q r : Query α} (hq : Steady q) (hr : Steady r) :
    Steady (if c then q else r) := by
  by_cases h : c
  · simpa only [h, if_true] using hq
  · simpa only [h, if_false] using hr

theorem Steady.foldlM {f : β → α → Query β} (hf : ∀ b a, Steady (f b a)) (as : List α) (b : β) :
    Steady (as.foldlM f b) := by
  induction as generalizing b with
  | nil => exact Steady.pure b
  | cons a as ih =>
    rw [List.foldlM_cons]
    exact Steady.bind (hf b a) fun b => ih b

/-- A memo past an answer: `q` was asked of an earlier memo and said `a`. -/
def Answered (q : Query α) (a : α) (m : Memo) : Prop :=
  ∃ m₀, m₀.busy = [] ∧ (q.run m₀).1 = a ∧ (q.run m₀).2.Grows m

theorem Answered.mono {q : Query α} {a : α} {m m' : Memo} (h : Answered q a m)
    (hm : m.Grows m') : Answered q a m' := by
  obtain ⟨m₀, hbusy, ha, hg⟩ := h
  exact ⟨m₀, hbusy, ha, hg.trans hm⟩

theorem Answered.run_eq {q : Query α} {a : α} {m : Memo} (h : Answered q a m) (hq : Steady q) :
    (q.run m).1 = a := by
  obtain ⟨m₀, hbusy, ha, hg⟩ := h
  rw [hq.again m₀ m hbusy hg, ha]

/-! ## Remembered computations -/

section Once

variable {f : Facet} {d : Descriptor} {remembered : Memo → List (Descriptor × α)}
  {store : α → Memo → Memo} {circular : α} {compute : Query α}

theorem once_run (m : Memo) :
    (once f d remembered store circular compute).run m =
      match (remembered m).lookup d with
      | some a => (a, m)
      | none =>
        if m.isBusy f d then (circular, m)
        else
          ((compute.run (m.enter f d)).1,
            store (compute.run (m.enter f d)).1 ((compute.run (m.enter f d)).2.leave f d)) := by
  have hget : (once f d remembered store circular compute).run m =
      StateT.run (match (remembered m).lookup d with
        | some a => pure a
        | none =>
          if m.isBusy f d then pure circular
          else do
            set (m.enter f d)
            let a ← compute
            modify fun m => store a (m.leave f d)
            return a) m := rfl
  rw [hget]
  cases (remembered m).lookup d with
  | some a => rfl
  | none => cases m.isBusy f d <;> rfl

theorem once_grows (hc : Grows compute)
    (hs : ∀ a m m', m.Grows m' → (remembered m).lookup d = none → m.Grows (store a m')) :
    Grows (once f d remembered store circular compute) := by
  intro m
  rw [once_run]
  cases h : (remembered m).lookup d with
  | some a => exact Memo.Grows.refl m
  | none =>
    by_cases hb : m.isBusy f d
    · simp only [hb, if_true]
      exact Memo.Grows.refl m
    · simp only [hb]
      exact hs _ m _ (Memo.Grows.leave (hc _)) h

/-- Asked of a memo without busy marks, a computation is remembered. -/
theorem once_remembered (hs : ∀ a m, (remembered (store a m)).lookup d = some a) {m : Memo}
    (hm : m.busy = []) :
    (remembered ((once f d remembered store circular compute).run m).2).lookup d =
      some ((once f d remembered store circular compute).run m).1 := by
  rw [once_run]
  cases h : (remembered m).lookup d with
  | some a => exact h
  | none =>
    -- nothing is busy, so the computation is made and stored
    have hb : m.isBusy f d = false := by simp [Memo.isBusy, hm]
    simp only [hb]
    exact hs _ _

theorem once_again (hs : ∀ a m, (remembered (store a m)).lookup d = some a)
    (hg : ∀ m m', m.Grows m' → ∀ a, (remembered m).lookup d = some a →
      (remembered m').lookup d = some a) (m m' : Memo) (hm : m.busy = [])
    (h : ((once f d remembered store circular compute).run m).2.Grows m') :
    ((once f d remembered store circular compute).run m').1 =
      ((once f d remembered store circular compute).run m).1 := by
  have hfound := hg _ _ h _ (once_remembered hs hm)
  rw [once_run (m := m'), hfound]

end Once

end Query

namespace ClassPath

open Query

variable (p : ClassPath)

/-! ## Interfaces -/

theorem addInterface_grows {of : Descriptor → Query (Computed InterfaceMap)}
    (hof : ∀ d, Grows (of d)) (acc : Computed InterfaceMap) (d : Descriptor) :
    Grows (p.addInterface of acc d) := by
  unfold addInterface
  split
  · exact Grows.pure _
  · exact Grows.bind (hof d) fun _ => Grows.pure _

theorem addInherited_grows {of : Descriptor → Query (Computed InterfaceMap)}
    (hof : ∀ d, Grows (of d)) (acc : Computed InterfaceMap) (d : Descriptor) :
    Grows (p.addInherited of acc d) :=
  Grows.bind (hof d) fun _ => Grows.pure _

theorem collectInterfaces_grows {of : Descriptor → Query (Computed InterfaceMap)}
    (hof : ∀ d, Grows (of d)) (c : ClassDef) : Grows (p.collectInterfaces of c) := by
  unfold collectInterfaces
  refine Grows.bind (Grows.foldlM (p.addInterface_grows hof) _ _) fun acc => ?_
  dsimp only
  split
  · exact p.addInherited_grows hof _ _
  · exact Grows.pure _

theorem interfacesWithin_grows (depth : Nat) (d : Descriptor) :
    Grows (p.interfacesWithin depth d) := by
  induction depth generalizing d with
  | zero => exact Grows.pure _
  | succ depth ih =>
    unfold interfacesWithin
    split
    · exact Grows.pure _
    · exact Grows.pure _
    · exact Grows.pure _
    · refine once_grows (p.collectInterfaces_grows ih _) ?_
      intro a m m' h hd
      exact { h with interfaces := Memo.Grows.lookup_cons a h.interfaces hd }

theorem interfaces_steady (d : Descriptor) : Steady (p.interfaces d) where
  grows := p.interfacesWithin_grows _ d
  again := by
    unfold interfaces interfacesWithin
    split
    · exact fun _ _ _ _ => rfl
    · exact fun _ _ _ _ => rfl
    · exact fun _ _ _ _ => rfl
    -- nothing is said of the tables below, which may have met a busy class
    · exact once_again (fun a m => by simp) (fun m m' h a => h.interfaces d a)

theorem directInterfaces_steady (d : Descriptor) : Steady (p.directInterfaces d) :=
  Steady.bind (p.interfaces_steady d) fun _ => Steady.pure _

theorem implements_steady (d iface : Descriptor) : Steady (p.implements d iface) := by
  refine Steady.bind (p.interfaces_steady d) fun m => ?_
  split <;> exact Steady.pure _

/-! ## Field layouts -/

theorem computeLayout_grows
    {of : Descriptor → Query (Except MissingClass (Computed FieldLayout))}
    (hof : ∀ d, Grows (of d)) (c : ClassDef) : Grows (p.computeLayout of c) := by
  unfold computeLayout
  split
  · exact Grows.pure _
  · refine Grows.bind (hof _) fun r => ?_
    split <;> exact Grows.pure _

theorem layoutWithin_grows (depth : Nat) (d : Descriptor) : Grows (p.layoutWithin depth d) := by
  induction depth generalizing d with
  | zero => exact Grows.pure _
  | succ depth ih =>
    unfold layoutWithin
    dsimp only
    split
    · exact Grows.pure _
    · refine Grows.bind (once_grows (p.computeLayout_grows ih _) ?_) fun _ => Grows.pure _
      intro a m m' h hd
      exact { h with layouts := Memo.Grows.lookup_cons a h.layouts hd }

theorem layout_steady (d : Descriptor) : Steady (p.layout d) := by
  refine ⟨p.layoutWithin_grows _ d, ?_⟩
  unfold layout layoutWithin
  dsimp only
  split
  · exact fun _ _ _ _ => rfl
  · intro m m' hm h
    simp only [run_bind, run_pure] at h ⊢
    exact congrArg Except.ok
      (once_again (fun a m => by simp) (fun m m' h a => h.layouts _ a) m m' hm h)

theorem fieldAt_steady (d : Descriptor) (offset : Nat) : Steady (p.fieldAt d offset) :=
  Steady.bind (p.layout_steady d) fun _ => Steady.pure _

/-! ## Virtual methods -/

theorem addDefault_grows (owner : Descriptor) (inherited : Nat) (t : Vtable) (e : VtableEntry) :
    Grows (p.addDefault owner inherited t e) := by
  unfold addDefault
  split
  · exact Grows.pure _
  · split
    · exact Grows.pure _
    · dsimp only
      refine Grows.ite (Grows.pure _) (Grows.ite ?_ (Grows.ite (Grows.pure _) (Grows.pure _)))
      refine Grows.bind (p.implements_steady _ _).grows fun r => ?_
      split <;> exact Grows.pure _

theorem vtableOver_grows (inherited : Vtable) (c : ClassDef) :
    Grows (p.vtableOver inherited c) := by
  unfold vtableOver
  split
  · exact Grows.pure _
  · refine Grows.bind (p.directInterfaces_steady _).grows fun ifaces => ?_
    have hflag (t : Vtable) : Grows (do
        return (⟨t, (← p.interfaces c.descriptor).complete⟩ : Computed Vtable)) :=
      Grows.bind (p.interfaces_steady _).grows fun _ => Grows.pure _
    dsimp only
    split
    · exact Grows.bind (Grows.pure _) hflag
    · refine Grows.bind (Grows.foldlM (p.addDefault_grows _ _) _ _) fun t => ?_
      exact Grows.bind (Grows.pure _) hflag

theorem inheritedVtable_grows {of : Descriptor → Query (Except MissingClass (Computed Vtable))}
    (hof : ∀ d, Grows (of d)) (c : ClassDef) : Grows (inheritedVtable of c) := by
  unfold inheritedVtable
  split
  · exact Grows.pure _
  · refine Grows.bind (hof _) fun r => ?_
    split
    · exact Grows.pure _
    · split
      · exact Grows.pure _
      · refine Grows.bind (hof _) fun r => ?_
        split <;> exact Grows.pure _

theorem vtableWithin_grows (depth : Nat) (d : Descriptor) : Grows (p.vtableWithin depth d) := by
  induction depth generalizing d with
  | zero => exact Grows.pure _
  | succ depth ih =>
    unfold vtableWithin
    dsimp only
    split
    · exact Grows.pure _
    · refine Grows.bind (once_grows ?_ ?_) fun _ => Grows.pure _
      · refine Grows.bind (inheritedVtable_grows ih _) fun inherited => ?_
        exact Grows.bind (p.vtableOver_grows _ _) fun _ => Grows.pure _
      · intro a m m' h hd
        exact { h with vtables := Memo.Grows.lookup_cons a h.vtables hd }

theorem vtable_steady (d : Descriptor) : Steady (p.vtable d) := by
  refine ⟨p.vtableWithin_grows _ d, ?_⟩
  unfold vtable vtableWithin
  dsimp only
  split
  · exact fun _ _ _ _ => rfl
  · intro m m' hm h
    simp only [run_bind, run_pure] at h ⊢
    exact congrArg Except.ok
      (once_again (fun a m => by simp) (fun m m' h a => h.vtables _ a) m m' hm h)

theorem methodAt_steady (d : Descriptor) (index : Nat) : Steady (p.methodAt d index) :=
  Steady.bind (p.vtable_steady d) fun _ => Steady.pure _

/-! ## Common supertypes -/

theorem commonWithInterface_steady (iface other : Descriptor) :
    Steady (p.commonWithInterface iface other) := by
  refine Steady.bind (p.implements_steady other iface) fun r => ?_
  split <;> exact Steady.pure _

theorem commonOfClasses_steady (a b : Descriptor) : Steady (p.commonOfClasses a b) := by
  unfold commonOfClasses
  refine Steady.ite (Steady.pure _) (Steady.ite (Steady.pure _) ?_)
  split
  · exact p.commonWithInterface_steady _ _
  · exact p.commonWithInterface_steady _ _
  · exact Steady.pure _
  · exact Steady.pure _

theorem commonOfArrayAndClass_steady (array cls : Descriptor) :
    Steady (p.commonOfArrayAndClass array cls) := by
  unfold commonOfArrayAndClass
  split
  · refine Steady.bind (p.implements_steady _ _) fun r => ?_
    split <;> exact Steady.pure _
  · exact Steady.pure _

theorem commonOfArrays_steady (a b : Descriptor) : Steady (p.commonOfArrays a b) :=
  Steady.ite (Steady.bind (p.commonOfClasses_steady _ _) fun _ => Steady.pure _) (Steady.pure _)

theorem commonSuperclass_steady (a b : Descriptor) : Steady (p.commonSuperclass a b) := by
  unfold commonSuperclass
  refine Steady.ite (Steady.pure _) (Steady.ite (Steady.pure _) (Steady.ite ?_ (Steady.ite ?_ ?_)))
  · exact Steady.ite (p.commonOfArrays_steady _ _) (p.commonOfArrayAndClass_steady _ _)
  · exact p.commonOfArrayAndClass_steady _ _
  · exact p.commonOfClasses_steady _ _

end ClassPath

/-! ## Lookups -/

/-- A question that may fail. -/
abbrev Fallible (ε α : Type) := ExceptT ε Query α

namespace Fallible

variable {ε α β : Type}

/-- Both its answers and its failures stay. -/
def Steady (x : Fallible ε α) : Prop := Query.Steady x.run

theorem Steady.pure (a : α) : Steady (Pure.pure a : Fallible ε α) := Query.Steady.pure _

theorem Steady.throw (e : ε) : Steady (MonadExcept.throw e : Fallible ε α) := Query.Steady.pure _

theorem Steady.lift {q : Query α} (hq : Query.Steady q) : Steady (liftM q : Fallible ε α) :=
  Query.Steady.bind hq fun _ => Query.Steady.pure _

theorem Steady.bind {x : Fallible ε α} {f : α → Fallible ε β} (hx : Steady x)
    (hf : ∀ a, Steady (f a)) : Steady (x >>= f) := by
  unfold Steady
  rw [ExceptT.run_bind]
  refine Query.Steady.bind hx fun r => ?_
  -- a failure is an answer like any other
  cases r with
  | ok a => exact hf a
  | error e => exact Query.Steady.pure _

theorem Steady.ite {c : Prop} [Decidable c] {x y : Fallible ε α} (hx : Steady x)
    (hy : Steady y) : Steady (if c then x else y) := by
  by_cases h : c
  · simpa only [h, if_true] using hx
  · simpa only [h, if_false] using hy

/-- An answer comes from answers on the way. -/
theorem bind_ok {x : Fallible ε α} {f : α → Fallible ε β} {m : Memo} {b : β}
    (h : ((x >>= f).run.run m).1 = .ok b) :
    ∃ a, (x.run.run m).1 = .ok a ∧ ((f a).run.run (x.run.run m).2).1 = .ok b ∧
      ((x >>= f).run.run m).2 = ((f a).run.run (x.run.run m).2).2 := by
  rw [ExceptT.run_bind, Query.run_bind] at h ⊢
  cases hx : (x.run.run m).1 with
  | ok a =>
    rw [hx] at h
    exact ⟨a, rfl, h, rfl⟩
  | error e =>
    rw [hx] at h
    cases h

end Fallible

namespace ClassPath

open Fallible

variable (p : ClassPath)

theorem known_steady {α : Type} (x : Except MissingClass α) : Steady (Lookup.known x) := by
  unfold Lookup.known
  split
  · exact Steady.pure _
  · exact Steady.throw _

theorem ask_steady {α : Type} {q : Query (Except MissingClass α)} (hq : Query.Steady q) :
    Steady (Lookup.ask q) :=
  Steady.bind (Steady.lift hq) known_steady

theorem accessibleFrom_steady (accessor : Descriptor) (member : String) (start : Descriptor) :
    Steady (p.accessibleFrom accessor member start) := by
  refine Steady.bind (known_steady _) fun c => ?_
  split
  · exact Steady.pure _
  · exact Steady.throw _

theorem resolveField_steady (accessor object : Descriptor) (offset : Nat) :
    Steady (p.resolveField accessor object offset) := by
  refine Steady.bind (ask_steady (p.fieldAt_steady object offset)) fun r => ?_
  split
  · exact Steady.throw _
  · refine Steady.bind (known_steady _) fun owner => Steady.ite (Steady.pure _) ?_
    refine Steady.bind (p.accessibleFrom_steady _ _ _) fun c => ?_
    refine Steady.bind (ask_steady (p.fieldAt_steady _ _)) fun r => ?_
    split
    · exact Steady.pure _
    · exact Steady.throw _

theorem resolveMethod_steady (accessor object : Descriptor) (index : Nat) (isSuper : Bool) :
    Steady (p.resolveMethod accessor object index isSuper) := by
  refine Steady.bind (ask_steady (p.methodAt_steady object index)) fun r => ?_
  split
  · exact Steady.throw _
  · refine Steady.ite (Steady.pure _) (Steady.bind (known_steady _) fun owner => ?_)
    refine Steady.ite (Steady.pure _) (Steady.bind (p.accessibleFrom_steady _ _ _) fun c => ?_)
    refine Steady.bind (ask_steady (p.methodAt_steady _ _)) fun r => ?_
    split
    · exact Steady.pure _
    · exact Steady.throw _

end ClassPath

end SymbolicDex
