import SymbolicDex.Hierarchy.Ancestry
import SymbolicDex.Proofs.Hierarchy.HandedDownTables

/- Everything that can be asked of a class path. Whatever the question, it is put
   together from questions for the interfaces, the layout and the virtual methods
   of classes, and the memo is touched by these alone (`Query.Composed`). What
   they preserve is therefore preserved by every question, and so by a history of
   them; and where their answers do not depend on the memo, no answer does.

   What is proved:
     1. `Composed.preserves`, `Composed.fixed`: what carries over from the three
        tables to a question made of them.
     2. `ask_composed`: every question is made of them.
     3. `kept_after`: after any history the remembered tables have the properties
        that tables hand down. -/
namespace SymbolicDex

/-- A question to a class path. -/
inductive Question where
  | interfaces (d : Descriptor)
  | implements (d iface : Descriptor)
  | layout (d : Descriptor)
  | vtable (d : Descriptor)
  | commonSuperclass (a b : Descriptor)
  | resolveField (accessor object : Descriptor) (offset : Nat)
  | resolveMethod (accessor object : Descriptor) (index : Nat) (isSuper : Bool)

/-- What a question is answered with. -/
def Question.Answer : Question → Type
  | interfaces _ => Computed InterfaceMap
  | implements _ _ => Except MissingClass Bool
  | layout _ => Except MissingClass (Computed FieldLayout)
  | vtable _ => Except MissingClass (Computed Vtable)
  | commonSuperclass _ _ => Descriptor
  | resolveField _ _ _ => Except Stop FieldRef
  | resolveMethod _ _ _ _ => Except Stop MethodRef

namespace ClassPath

variable (p : ClassPath)

def ask : (q : Question) → Query q.Answer
  | .interfaces d => p.interfaces d
  | .implements d iface => p.implements d iface
  | .layout d => p.layout d
  | .vtable d => p.vtable d
  | .commonSuperclass a b => p.commonSuperclass a b
  | .resolveField accessor object offset => (p.resolveField accessor object offset).run
  | .resolveMethod accessor object index isSuper =>
    (p.resolveMethod accessor object index isSuper).run

/-- The memo after questions of any kind, asked in this order of a new class
    path. -/
def memoAfterAsking (history : List Question) : Memo :=
  history.foldl (fun m q => ((p.ask q).run m).2) Memo.empty

end ClassPath

namespace Query

/-- The question is put together from questions for the given tables of
    classes. -/
inductive Composed (p : ClassPath) (facets : Facet → Prop) : {α : Type} → Query α → Prop where
  | pure {α : Type} (a : α) : Composed p facets (Pure.pure a : Query α)
  | interfaces (h : facets .interfaces) (d : Descriptor) : Composed p facets (p.interfaces d)
  | layout (h : facets .layout) (d : Descriptor) : Composed p facets (p.layout d)
  | vtable (h : facets .vtable) (d : Descriptor) : Composed p facets (p.vtable d)
  | bind {α β : Type} {q : Query α} {f : α → Query β} (hq : Composed p facets q)
      (hf : ∀ a, Composed p facets (f a)) : Composed p facets (q >>= f)

/-- Where `I` holds, the answer does not depend on the memo, and `I` is left. -/
def Fixed {α : Type} (I : Memo → Prop) (q : Query α) : Prop := ∃ a, Gives I (fun b => b = a) q

namespace Composed

variable {p : ClassPath} {facets : Facet → Prop} {α β : Type} {q : Query α} {I : Memo → Prop}

theorem ite {c : Prop} [Decidable c] {r : Query α} (hq : Composed p facets q)
    (hr : Composed p facets r) : Composed p facets (if c then q else r) := by
  by_cases h : c
  · simpa only [h, if_true] using hq
  · simpa only [h, if_false] using hr

theorem foldlM {f : β → α → Query β} (hf : ∀ b a, Composed p facets (f b a)) (as : List α)
    (b : β) : Composed p facets (as.foldlM f b) := by
  induction as generalizing b with
  | nil => exact pure b
  | cons a as ih =>
    rw [List.foldlM_cons]
    exact bind (hf b a) fun b => ih b

theorem preserves (h : Composed p facets q)
    (hi : facets .interfaces → ∀ d, Preserves I (p.interfaces d))
    (hl : facets .layout → ∀ d, Preserves I (p.layout d))
    (hv : facets .vtable → ∀ d, Preserves I (p.vtable d)) : Preserves I q := by
  induction h with
  | pure a => exact Preserves.pure a
  | interfaces h d => exact hi h d
  | layout h d => exact hl h d
  | vtable h d => exact hv h d
  | bind _ _ ihq ihf => exact Preserves.bind ihq ihf

theorem fixed (h : Composed p facets q)
    (hi : facets .interfaces → ∀ d, Fixed I (p.interfaces d))
    (hl : facets .layout → ∀ d, Fixed I (p.layout d))
    (hv : facets .vtable → ∀ d, Fixed I (p.vtable d)) : Fixed I q := by
  induction h with
  | pure a => exact ⟨a, Gives.pure rfl⟩
  | interfaces h d => exact hi h d
  | layout h d => exact hl h d
  | vtable h d => exact hv h d
  | bind _ _ ihq ihf =>
    obtain ⟨a, ha⟩ := ihq
    obtain ⟨b, hb⟩ := ihf a
    exact ⟨b, Gives.bind ha fun a' ha' => ha' ▸ hb⟩

/-- The three tables of a class are steady, and so is what is made of them. -/
theorem steady (h : Composed p facets q) : Steady q := by
  induction h with
  | pure a => exact Steady.pure a
  | interfaces _ d => exact p.interfaces_steady d
  | layout _ d => exact p.layout_steady d
  | vtable _ d => exact p.vtable_steady d
  | bind _ _ ihq ihf => exact Steady.bind ihq ihf

end Composed

end Query

namespace ClassPath

open Query

variable (p : ClassPath) {facets : Facet → Prop}

/-! ## Questions for interfaces -/

section Interfaces

variable (h : facets .interfaces)
include h

theorem implements_composed (d iface : Descriptor) :
    Composed p facets (p.implements d iface) := by
  refine .bind (.interfaces h d) fun m => ?_
  split <;> exact .pure _

theorem directInterfaces_composed (d : Descriptor) : Composed p facets (p.directInterfaces d) :=
  .bind (.interfaces h d) fun _ => .pure _

theorem addDefault_composed (owner : Descriptor) (inherited : Nat) (t : Vtable)
    (e : VtableEntry) : Composed p facets (p.addDefault owner inherited t e) := by
  unfold addDefault
  split
  · exact .pure _
  · split
    · exact .pure _
    · dsimp only
      refine .ite (.pure _) (.ite ?_ (.ite (.pure _) (.pure _)))
      refine .bind (p.implements_composed h _ _) fun r => ?_
      split <;> exact .pure _

theorem withDefaults_composed (owner : Descriptor) (ifaces : List ClassDef) (inherited : Nat)
    (t : Vtable) : Composed p facets (p.withDefaults owner ifaces inherited t) :=
  .foldlM (p.addDefault_composed h owner inherited) _ t

theorem vtableOver_composed (inherited : Vtable) (c : ClassDef) :
    Composed p facets (p.vtableOver inherited c) := by
  unfold vtableOver
  refine .ite (.pure _) (.bind (p.directInterfaces_composed h _) fun ifaces => ?_)
  have hflag (t : Vtable) : Composed p facets (do
      return (⟨t, (← p.interfaces c.descriptor).complete⟩ : Computed Vtable)) :=
    .bind (.interfaces h _) fun _ => .pure _
  dsimp only
  split
  · exact .bind (.pure _) hflag
  · exact .bind (p.withDefaults_composed h _ _ _ _) fun _ => .bind (.pure _) hflag

theorem commonWithInterface_composed (iface other : Descriptor) :
    Composed p facets (p.commonWithInterface iface other) := by
  refine .bind (p.implements_composed h _ _) fun r => ?_
  split <;> exact .pure _

theorem commonOfClasses_composed (a b : Descriptor) :
    Composed p facets (p.commonOfClasses a b) := by
  unfold commonOfClasses
  refine .ite (.pure _) (.ite (.pure _) ?_)
  split
  · exact p.commonWithInterface_composed h _ _
  · exact p.commonWithInterface_composed h _ _
  · exact .pure _
  · exact .pure _

theorem commonOfArrayAndClass_composed (array cls : Descriptor) :
    Composed p facets (p.commonOfArrayAndClass array cls) := by
  unfold commonOfArrayAndClass
  split
  · refine .bind (p.implements_composed h _ _) fun r => ?_
    split <;> exact .pure _
  · exact .pure _

theorem commonSuperclass_composed (a b : Descriptor) :
    Composed p facets (p.commonSuperclass a b) := by
  unfold commonSuperclass commonOfArrays
  refine .ite (.pure _) (.ite (.pure _) (.ite (.ite ?_ ?_) (.ite ?_ ?_)))
  · exact .ite (.bind (p.commonOfClasses_composed h _ _) fun _ => .pure _) (.pure _)
  · exact p.commonOfArrayAndClass_composed h _ _
  · exact p.commonOfArrayAndClass_composed h _ _
  · exact p.commonOfClasses_composed h _ _

end Interfaces

/-! ## Lookups -/

section Lookups

variable {ε α β : Type}

/-- A failure ends a question, so what comes next is asked or not. -/
theorem composed_run_bind {x : Fallible ε α} {f : α → Fallible ε β} (hx : Composed p facets x.run)
    (hf : ∀ a, Composed p facets (f a).run) : Composed p facets (x >>= f).run := by
  rw [ExceptT.run_bind]
  refine .bind hx fun r => ?_
  cases r with
  | ok a => exact hf a
  | error e => exact .pure _

theorem composed_run_ite {c : Prop} [Decidable c] {x y : Fallible ε α}
    (hx : Composed p facets x.run) (hy : Composed p facets y.run) :
    Composed p facets (if c then x else y).run := by
  by_cases h : c
  · simpa only [h, if_true] using hx
  · simpa only [h, if_false] using hy

theorem known_composed (x : Except MissingClass α) : Composed p facets (Lookup.known x).run := by
  cases x with
  | ok a => exact .pure _
  | error e => exact .pure _

theorem ask_query_composed {q : Query (Except MissingClass α)} (hq : Composed p facets q) :
    Composed p facets (Lookup.ask q).run :=
  p.composed_run_bind (.bind hq fun _ => .pure _) p.known_composed

theorem accessibleFrom_composed (accessor : Descriptor) (member : String) (start : Descriptor) :
    Composed p facets (p.accessibleFrom accessor member start).run := by
  refine p.composed_run_bind (p.known_composed _) fun c => ?_
  split <;> exact .pure _

theorem resolveField_composed (h : facets .layout) (accessor object : Descriptor) (offset : Nat) :
    Composed p facets (p.resolveField accessor object offset).run := by
  have hfieldAt (d : Descriptor) : Composed p facets (p.fieldAt d offset) :=
    .bind (.layout h d) fun _ => .pure _
  refine p.composed_run_bind (p.ask_query_composed (hfieldAt object)) fun r => ?_
  split
  · exact .pure _
  · refine p.composed_run_bind (p.known_composed _) fun owner =>
      p.composed_run_ite (.pure _) ?_
    refine p.composed_run_bind (p.accessibleFrom_composed _ _ _) fun c => ?_
    refine p.composed_run_bind (p.ask_query_composed (hfieldAt _)) fun r => ?_
    split <;> exact .pure _

theorem resolveMethod_composed (h : facets .vtable) (accessor object : Descriptor) (index : Nat)
    (isSuper : Bool) : Composed p facets (p.resolveMethod accessor object index isSuper).run := by
  have hmethodAt (d : Descriptor) : Composed p facets (p.methodAt d index) :=
    .bind (.vtable h d) fun _ => .pure _
  refine p.composed_run_bind (p.ask_query_composed (hmethodAt object)) fun r => ?_
  split
  · exact .pure _
  · refine p.composed_run_ite (.pure _) (p.composed_run_bind (p.known_composed _) fun owner =>
      p.composed_run_ite (.pure _) ?_)
    refine p.composed_run_bind (p.accessibleFrom_composed _ _ _) fun c => ?_
    refine p.composed_run_bind (p.ask_query_composed (hmethodAt _)) fun r => ?_
    split <;> exact .pure _

end Lookups

theorem ask_composed (q : Question) : Composed p (fun _ => True) (p.ask q) := by
  cases q with
  | interfaces d => exact .interfaces trivial d
  | implements d iface => exact p.implements_composed trivial d iface
  | layout d => exact .layout trivial d
  | vtable d => exact .vtable trivial d
  | commonSuperclass a b => exact p.commonSuperclass_composed trivial a b
  | resolveField accessor object offset => exact p.resolveField_composed trivial _ _ _
  | resolveMethod accessor object index isSuper => exact p.resolveMethod_composed trivial _ _ _ _

/-! ## Histories -/

/-- What every question preserves, a history of questions does. -/
theorem memoAfterAsking_of_preserves {I : Memo → Prop} (hempty : I Memo.empty)
    (hask : ∀ q, Preserves I (p.ask q)) (history : List Question) :
    I (p.memoAfterAsking history) := by
  simp only [memoAfterAsking]
  generalize Memo.empty = m at hempty
  induction history generalizing m with
  | nil => exact hempty
  | cons q history ih => exact ih _ (hask q m hempty).2

variable {p} {P : Descriptor → Computed InterfaceMap → Prop}
  {PL : Descriptor → Computed FieldLayout → Prop} {PV : Descriptor → Computed Vtable → Prop}

theorem kept_after (hP : p.Collects P) (hL : TableKind.layout.HandsDown p (fun _ => True) PL)
    (hV : TableKind.vtable.HandsDown p (Recalling P) PV) (history : List Question) :
    Kept P PL PV (p.memoAfterAsking history) := by
  refine p.memoAfterAsking_of_preserves kept_empty (fun q => ?_) history
  exact (p.ask_composed q).preserves (fun _ d => (interfaces_kept hP d).mono fun _ _ => trivial)
    (fun _ d => (layout_kept hL d).mono fun _ _ => trivial)
    (fun _ d => (vtable_kept hV d).mono fun _ _ => trivial)

end ClassPath

end SymbolicDex
