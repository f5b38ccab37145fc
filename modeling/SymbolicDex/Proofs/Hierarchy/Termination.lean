import Mathlib.Data.Finset.Card
import Mathlib.Logic.Function.Iterate
import SymbolicDex.Proofs.Hierarchy.Questions
import SymbolicDex.Proofs.Hierarchy.SuperclassChains

/- Questions end. The definitions of the three tables carry a bound on the depth to
   which a class asks for the tables of other classes, and have an answer of their own
   for a class beyond it. None is ever beyond it: a class that asks is marked busy, and
   the defined classes without a mark are used up before the depth is. This is said
   with any questions at all in the place of those beyond (`Grounded`), such as would
   leave a trace in the memo, and from any memo.

   What is proved:
     1. `Coincide.once`, `free_cons_lt`: one level of a table marks one more class.
     2. `Descends.coincide_iterate`: so what lies deeper than there are classes left
        does not show.
     3. `interfaces_grounded`, `layout_grounded`, `vtable_grounded`: on any
        declarations, no table asks that deep.
     4. `chain_iff`: nor is a chain of superclasses cut by its bound.
     5. `questions_return`: all questions end after any history, and nothing is left
        busy. -/
namespace SymbolicDex

namespace Query

/-! ## Questions that coincide -/

variable {α β : Type} {marks : List (Facet × Descriptor)} {q q' : Query α}

/-- While the classes of `marks` are busy, the two questions do the same, and take back
    the marks that they make. -/
def Coincide (marks : List (Facet × Descriptor)) (q q' : Query α) : Prop :=
  ∀ m : Memo, m.busy = marks → q.run m = q'.run m ∧ (q.run m).2.busy = marks

theorem Coincide.refl (h : Keeps Memo.busy q) : Coincide marks q q :=
  fun m hm => ⟨rfl, (h m).trans hm⟩

theorem Coincide.pure (a : α) : Coincide marks (Pure.pure a) (Pure.pure a) :=
  Coincide.refl (Keeps.pure a)

theorem Coincide.bind {f f' : α → Query β} (hq : Coincide marks q q')
    (hf : ∀ a, Coincide marks (f a) (f' a)) : Coincide marks (q >>= f) (q' >>= f') := by
  intro m hm
  obtain ⟨heq, hm'⟩ := hq m hm
  rw [run_bind, run_bind, ← heq]
  exact hf _ _ hm'

theorem Coincide.foldlM {f f' : β → α → Query β}
    (hf : ∀ b a, Coincide marks (f b a) (f' b a)) (as : List α) (b : β) :
    Coincide marks (as.foldlM f b) (as.foldlM f' b) := by
  induction as generalizing b with
  | nil => exact Coincide.pure b
  | cons a as ih =>
    rw [List.foldlM_cons, List.foldlM_cons]
    exact Coincide.bind (hf b a) ih

/-- The computation of a table is made with one more class marked. -/
theorem Coincide.once {d : Descriptor} {facet : Facet} {tables : Memo → List (Descriptor × α)}
    {store : α → Memo → Memo} {circular : α} {compute compute' : Query α}
    (hstore : ∀ a m, (store a m).busy = m.busy)
    (h : (facet, d) ∉ marks → Coincide ((facet, d) :: marks) compute compute') :
    Coincide marks (Query.once facet d tables store circular compute)
      (Query.once facet d tables store circular compute') := by
  intro m hm
  rw [once_run, once_run]
  cases (tables m).lookup d with
  | some a => exact ⟨rfl, hm⟩
  | none =>
    cases hbusy : m.isBusy facet d with
    | true => exact ⟨rfl, hm⟩
    | false =>
      have hfree : (facet, d) ∉ marks := by simpa [Memo.isBusy, hm] using hbusy
      obtain ⟨heq, hmarks⟩ := h hfree (m.enter facet d) (by rw [Memo.enter, hm])
      refine ⟨by simp only [heq], ?_⟩
      show (store _ _).busy = marks
      rw [hstore, Memo.leave, hmarks]
      exact List.erase_cons_head ..

end Query

/-! ## One level of a table -/

/-- The table of a class, given those of the classes above. -/
def TableKind.step {α : Type} (k : TableKind α) (p : ClassPath)
    (tableOf : Descriptor → Query (Except MissingClass (Computed α))) (d : Descriptor) :
    Query (Except MissingClass (Computed α)) :=
  let d := p.tableOwner d
  match p.classDefinition d with
  | .error e => return .error e
  | .ok c => do
    let t ← Query.once k.facet d k.tables (k.store d) ⟨k.empty, false⟩ (do
      let inherited ← k.inherited tableOf c
      k.finish p inherited c)
    return .ok t

namespace ClassPath

open Query

variable (p : ClassPath) {α : Type} {marks : List (Facet × Descriptor)}

/-- The interfaces of a class, given those of the classes that it names. -/
def interfacesStep (interfacesOf : Descriptor → Query (Computed InterfaceMap)) (d : Descriptor) :
    Query (Computed InterfaceMap) :=
  match p.shape d with
  | .unknown => return ⟨InterfaceMap.empty, true⟩
  | .array => return ⟨InterfaceMap.ofArray, true⟩
  | .missing => return ⟨InterfaceMap.empty, false⟩
  | .defined c =>
    Query.once .interfaces d (·.interfaces)
      (fun a m => { m with interfaces := (d, a) :: m.interfaces })
      ⟨InterfaceMap.empty, false⟩ (p.collectInterfaces interfacesOf c)

/-- `step` is one level of the definition of a table, and the last level is never come
    to: whatever tables are put below it, the answers are the same. -/
structure Grounded (within : Nat → Descriptor → Query α)
    (step : (Descriptor → Query α) → Descriptor → Query α) : Prop where
  level : ∀ n, within (n + 1) = step (within n)
  below : ∀ n ≥ p.size + 2, ∀ tableOf, step^[n] tableOf = within (p.size + 2)

/-! ## Classes that are left -/

/-- The number of defined classes that are not marked for a facet. -/
def free (facet : Facet) (marks : List (Facet × Descriptor)) : Nat :=
  (p.definedNames.toFinset.filter fun d => (facet, d) ∉ marks).card

/-- The bound on the depth is great enough whatever is marked. -/
theorem free_lt (facet : Facet) (marks : List (Facet × Descriptor)) :
    p.free facet marks < p.size + 2 := by
  have hle : p.free facet marks ≤ p.definedNames.length :=
    (Finset.card_filter_le _ _).trans (List.toFinset_card_le _)
  rw [length_definedNames] at hle
  omega

theorem free_cons_lt {facet : Facet} {d : Descriptor} (hd : d ∈ p.definedNames)
    (hfree : (facet, d) ∉ marks) : p.free facet ((facet, d) :: marks) < p.free facet marks := by
  apply Finset.card_lt_card
  refine Finset.ssubset_iff_subset_ne.2 ⟨?_, ?_⟩
  · intro e he
    simp only [Finset.mem_filter, List.mem_cons, not_or] at he ⊢
    exact ⟨he.1, he.2.2⟩
  · intro heq
    have hmem : d ∈ p.definedNames.toFinset.filter fun e => (facet, e) ∉ marks :=
      Finset.mem_filter.2 ⟨List.mem_toFinset.2 hd, hfree⟩
    rw [← heq] at hmem
    simp at hmem

/-- Where the tables of other classes coincide while fewer classes are left, the tables
    of a class do. -/
def Descends (facet : Facet) (step : (Descriptor → Query α) → Descriptor → Query α) : Prop :=
  ∀ marks tableOf tableOf' d,
    (∀ marks', p.free facet marks' < p.free facet marks →
      ∀ e, Coincide marks' (tableOf e) (tableOf' e)) →
    Coincide marks (step tableOf d) (step tableOf' d)

theorem collectInterfaces_coincide
    {interfacesOf interfacesOf' : Descriptor → Query (Computed InterfaceMap)}
    (hask : ∀ e, Coincide marks (interfacesOf e) (interfacesOf' e)) (c : ClassDef) :
    Coincide marks (p.collectInterfaces interfacesOf c)
      (p.collectInterfaces interfacesOf' c) := by
  unfold collectInterfaces
  apply Coincide.bind
  · apply Coincide.foldlM
    intro acc e
    unfold addInterface
    split
    · exact Coincide.pure _
    · exact Coincide.bind (hask e) fun _ => Coincide.pure _
  · intro acc
    dsimp only
    split
    · exact Coincide.bind (hask _) fun _ => Coincide.pure _
    · exact Coincide.pure _

theorem interfaces_descends : p.Descends .interfaces p.interfacesStep := by
  intro marks interfacesOf interfacesOf' d hbelow
  unfold interfacesStep
  split
  · exact Coincide.pure _
  · exact Coincide.pure _
  · exact Coincide.pure _
  next c hshape =>
    have hd := definition?_of_classDefinition (classDefinition_ok_iff.2 hshape)
    refine Coincide.once (fun _ _ => rfl) ?_
    intro hfree
    exact p.collectInterfaces_coincide
      (hbelow _ (p.free_cons_lt (mem_definedNames hd) hfree)) c

theorem inherited_coincide {k : TableKind α}
    {tableOf tableOf' : Descriptor → Query (Except MissingClass (Computed α))}
    (hask : ∀ e, Coincide marks (tableOf e) (tableOf' e)) (c : ClassDef) :
    Coincide marks (k.inherited tableOf c) (k.inherited tableOf' c) := by
  unfold TableKind.inherited
  split
  · exact Coincide.pure _
  · apply Coincide.bind (hask _)
    intro r
    cases r with
    | ok t => exact Coincide.pure _
    | error e =>
      dsimp only
      split
      · exact Coincide.pure _
      · apply Coincide.bind (hask _)
        intro r
        cases r with
        | ok t => exact Coincide.pure _
        | error e => exact Coincide.pure _

/-- What finishes a table may ask for other tables, but marks nothing in the end. -/
theorem step_descends {k : TableKind α} (tidy : k.Tidy p) : p.Descends k.facet (k.step p) := by
  intro marks tableOf tableOf' d hbelow
  unfold TableKind.step
  dsimp only
  split
  · exact Coincide.pure _
  next c hc =>
    refine Coincide.bind (Coincide.once (tidy.marks_store _) ?_) fun _ => Coincide.pure _
    intro hfree
    have hd := mem_definedNames (definition?_of_classDefinition hc)
    apply Coincide.bind (inherited_coincide (hbelow _ (p.free_cons_lt hd hfree)) c)
    intro inherited
    exact Coincide.refl (tidy.finish_marks inherited c)

/-! ## The bound on the depth -/

section Descends

variable {p} {facet : Facet} {step : (Descriptor → Query α) → Descriptor → Query α}
  {within : Nat → Descriptor → Query α} {n n' : Nat}

/-- Depths that are greater than the number of classes left give the same, whatever
    lies below them. -/
theorem Descends.coincide_iterate (h : p.Descends facet step) (hn : p.free facet marks < n)
    (hn' : p.free facet marks < n') (tableOf tableOf' : Descriptor → Query α) (d : Descriptor) :
    Coincide marks (step^[n] tableOf d) (step^[n'] tableOf' d) := by
  induction n generalizing n' marks d with
  | zero => omega
  | succ n ih =>
    obtain ⟨n', rfl⟩ := Nat.exists_eq_add_one.2 (Nat.zero_lt_of_lt hn')
    rw [Function.iterate_succ_apply', Function.iterate_succ_apply']
    apply h
    intro marks' hless e
    exact ih (by omega) (by omega) e

theorem within_eq_iterate (hlevel : ∀ n, within (n + 1) = step (within n)) (n : Nat) :
    within n = step^[n] (within 0) := by
  induction n with
  | zero => rfl
  | succ n ih => rw [hlevel, ih, Function.iterate_succ_apply']

theorem Descends.grounded (h : p.Descends facet step)
    (hlevel : ∀ n, within (n + 1) = step (within n)) : p.Grounded within step where
  level := hlevel
  below n hn tableOf := by
    rw [within_eq_iterate hlevel]
    funext d m
    have hless := p.free_lt facet m.busy
    exact (h.coincide_iterate (Nat.lt_of_lt_of_le hless hn) hless tableOf _ d m rfl).1

end Descends

theorem interfaces_grounded : p.Grounded p.interfacesWithin p.interfacesStep :=
  p.interfaces_descends.grounded fun _ => rfl

theorem layout_grounded : p.Grounded p.layoutWithin (TableKind.layout.step p) := by
  rw [funext₂ p.layoutWithin_eq]
  exact (p.step_descends p.layout_tidy).grounded fun _ => rfl

theorem vtable_grounded : p.Grounded p.vtableWithin (TableKind.vtable.step p) := by
  rw [funext₂ p.vtableWithin_eq]
  exact (p.step_descends p.vtable_tidy).grounded fun _ => rfl

end ClassPath

/-- The question comes down to questions for tables, and leaves no class busy. -/
structure Query.Returns {α : Type} (p : ClassPath) (q : Query α) (m : Memo) : Prop where
  composed : Query.Composed p (fun _ => True) q
  idle : (q.run m).2.busy = []

namespace ClassPath

open Query

variable (p : ClassPath)

/-! ## Chains -/

/-- The chain of superclasses above `d`, from the one that follows on `seen`. -/
inductive Chain (self : Descriptor) : List Descriptor → Descriptor → List Descriptor → Prop where
  | missing {seen : List Descriptor} {d : Descriptor} {e : MissingClass}
      (h : p.superclass d = .error e) : Chain self seen d [Descriptor.unknown]
  | root {seen : List Descriptor} {d : Descriptor} (h : p.superclass d = .ok none) :
      Chain self seen d []
  | circular {seen : List Descriptor} {d s : Descriptor} (h : p.Parent d s)
      (hagain : s = self ∨ s ∈ seen) : Chain self seen d [Descriptor.unknown]
  | step {seen above : List Descriptor} {d s : Descriptor} (h : p.Parent d s)
      (hnew : ¬ (s = self ∨ s ∈ seen)) (habove : Chain self (s :: seen) s above) :
      Chain self seen d (s :: above)

variable {p} {self d : Descriptor} {seen above : List Descriptor}

theorem Chain.unique {above' : List Descriptor} (h : p.Chain self seen d above)
    (h' : p.Chain self seen d above') : above = above' := by
  induction h generalizing above' with
  | missing h => cases h' <;> simp_all [Parent]
  | root h => cases h' <;> simp_all [Parent]
  | circular h hagain => cases h' <;> simp_all [Parent]
  | step h hnew _ ih =>
    cases h' with
    | step h' _ habove' =>
      have heq := h.symm.trans h'
      simp only [Except.ok.injEq, Option.some.injEq] at heq
      subst heq
      rw [ih habove']
    | _ => simp_all [Parent]

/-- Names on a chain do not come again, and there are only so many of them. -/
theorem chain_chainAfter {count : Nat} (hnodup : seen.Nodup)
    (hnamed : seen ⊆ Descriptor.object :: p.superclasses)
    (hcount : p.size + 2 ≤ count + seen.length) :
    p.Chain self seen d (p.chainAfter self count seen d) := by
  induction count generalizing seen d with
  | zero =>
    have hle := (List.subperm_of_subset hnodup hnamed).length_le
    have hsize := p.superclasses_length_le
    rw [List.length_cons] at hle
    omega
  | succ count ih =>
    unfold chainAfter
    split
    · exact .missing ‹_›
    · exact .root ‹_›
    next s hs =>
      split
      · exact .circular hs ‹_›
      next hnew =>
        have hfresh : s ∉ seen := fun hmem => hnew (.inr hmem)
        refine .step hs hnew (ih (List.nodup_cons.2 ⟨hfresh, hnodup⟩) ?_ ?_)
        · exact List.cons_subset.2 ⟨p.superclass_named hs, hnamed⟩
        · rw [List.length_cons]
          omega

theorem chain_iff : p.Chain d [] d above ↔ p.superclassChain d = above := by
  have hchain : p.Chain d [] d (p.superclassChain d) :=
    chain_chainAfter List.nodup_nil (List.nil_subset _) (Nat.le_refl _)
  constructor
  · exact hchain.unique
  · rintro rfl
    exact hchain

/-! ## Histories -/

variable (p)

theorem idle_after (history : List Question) : (p.memoAfterAsking history).busy = [] := by
  have hask (q : Question) : Preserves (fun m => m.busy = []) (p.ask q) :=
    (p.ask_composed q).preserves
      (fun _ d m hm => ⟨trivial, ((p.interfaces_steady d).grows m).idle hm⟩)
      (fun _ d m hm => ⟨trivial, ((p.layout_steady d).grows m).idle hm⟩)
      (fun _ d m hm => ⟨trivial, ((p.vtable_steady d).grows m).idle hm⟩)
  have hempty : Memo.empty.busy = [] := rfl
  exact p.memoAfterAsking_of_preserves hempty hask history

variable {p} in
theorem returns_after {α : Type} {q : Query α} (h : Composed p (fun _ => True) q) (hq : Grows q)
    (history : List Question) : Returns p q (p.memoAfterAsking history) :=
  ⟨h, (hq _).idle (p.idle_after history)⟩

/-- Whatever the classes declare and whatever was asked before, no table asks for others
    without an end and no chain of superclasses goes on without one; so every question
    for interfaces, superclasses, common superclasses, field layouts and virtual methods
    is answered, and no class is marked busy then. -/
theorem questions_return (history : List Question) :
    p.Grounded p.interfacesWithin p.interfacesStep ∧
      p.Grounded p.layoutWithin (TableKind.layout.step p) ∧
      p.Grounded p.vtableWithin (TableKind.vtable.step p) ∧
      (∀ d above, p.Chain d [] d above ↔ p.superclassChain d = above) ∧
      (∀ d, Returns p (p.interfaces d) (p.memoAfterAsking history)) ∧
      (∀ a b, Returns p (p.commonSuperclass a b) (p.memoAfterAsking history)) ∧
      (∀ d, Returns p (p.layout d) (p.memoAfterAsking history)) ∧
      ∀ d, Returns p (p.vtable d) (p.memoAfterAsking history) := by
  have hasked (q : Question) := p.ask_composed q
  refine ⟨p.interfaces_grounded, p.layout_grounded, p.vtable_grounded, fun _ _ => chain_iff,
    ?_, ?_, ?_, ?_⟩
  · intro d
    exact returns_after (hasked (.interfaces d)) (p.interfaces_steady d).grows history
  · intro a b
    exact returns_after (hasked (.commonSuperclass a b)) (p.commonSuperclass_steady a b).grows
      history
  · intro d
    exact returns_after (hasked (.layout d)) (p.layout_steady d).grows history
  · intro d
    exact returns_after (hasked (.vtable d)) (p.vtable_steady d).grows history

end ClassPath

end SymbolicDex
