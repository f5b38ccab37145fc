import SymbolicDex.Proofs.Hierarchy.AccessibleMembers

/- Interface tables over any history of questions. The table of a class is made
   of those of the classes it names, each of which is remembered once it is made.
   Circular declarations make a class meet itself while it is busy, and then an
   empty table stands in. A property of tables that is passed on from the classes
   a class names (`Collects`) therefore holds of whatever is answered or
   remembered, provided that it holds of the empty table for the classes that can
   meet themselves.

   What is proved:
     1. `interfacesWithin_gives`: one question answers with the property, and
        remembers only such tables.
     2. `interfaces_gives`, `recalling_after`: so does every question after any
        history, whatever else was asked. -/
namespace SymbolicDex

namespace ClassPath

open Query

variable (p : ClassPath)

/-- A property of interface tables that a class has from those of the classes it
    names. -/
structure Collects (P : Descriptor → Computed InterfaceMap → Prop) : Prop where
  unknown : P Descriptor.unknown ⟨InterfaceMap.empty, true⟩
  array : ∀ d : Descriptor, d.isArray = true → P d ⟨InterfaceMap.ofArray, true⟩
  missing : ∀ d, p.shape d = .missing → P d ⟨InterfaceMap.empty, false⟩
  circular : ∀ d, Relation.TransGen p.Declares d d → P d ⟨InterfaceMap.empty, false⟩
  collected : ∀ d c, p.classDefinition d = .ok c → ∀ (I : Memo → Prop) interfacesOf,
    (∀ s, p.Declares d s → Gives I (P s) (interfacesOf s)) →
    Gives I (P d) (p.collectInterfaces interfacesOf c)

/-- Every remembered interface table has the property. -/
def Recalls (P : Descriptor → Computed InterfaceMap → Prop) (m : Memo) : Prop :=
  ∀ d t, m.interfaces.lookup d = some t → P d t

/-- Circumstances in which interfaces are asked for: the busy classes are distinct
    and below the class asked for, and the remaining depth suffices for the
    others. -/
structure Collecting (n : Nat) (d : Descriptor) (m : Memo) : Prop where
  nodup : (m.busyWith .interfaces).Nodup
  defined : ∀ b ∈ m.busyWith .interfaces, p.hasTables b = true
  below : ∀ b ∈ m.busyWith .interfaces, Relation.TransGen p.Declares b d
  depth : p.size + 2 ≤ n + (m.busyWith .interfaces).length

variable {p} {P : Descriptor → Computed InterfaceMap → Prop} {n : Nat} {d s : Descriptor}
  {m m' : Memo} {c : ClassDef}

theorem eq_unknown_of_shape (h : p.shape d = .unknown) : d = Descriptor.unknown := by
  by_contra hd
  simp only [shape, hd, if_false] at h
  split at h
  · cases h
  · split at h <;> cases h

theorem isArray_of_shape (h : p.shape d = .array) : d.isArray = true := by
  by_contra hd
  simp only [shape, hd, if_false] at h
  split at h
  · cases h
  · split at h <;> cases h

theorem classDefinition_ok_iff : p.classDefinition d = .ok c ↔ p.shape d = .defined c := by
  simp only [classDefinition]
  cases p.shape d <;> simp

theorem declares_of_classDefinition (hc : p.classDefinition d = .ok c)
    (hs : s ∈ c.superclass.toList ++ c.interfaces) : p.Declares d s :=
  ⟨c, definition?_of_classDefinition hc, hs⟩

/-- What is named by the class that is busy now is asked for in the same way. -/
theorem Collecting.enter (h : p.Collecting (n + 1) d m) (hc : p.classDefinition d = .ok c)
    (hfree : d ∉ m.busyWith .interfaces) (hs : p.Declares d s)
    (hm' : m'.busyWith .interfaces = d :: m.busyWith .interfaces) : p.Collecting n s m' := by
  refine ⟨?_, ?_, ?_, ?_⟩
  all_goals rw [hm']
  · exact List.nodup_cons.2 ⟨hfree, h.nodup⟩
  · exact List.forall_mem_cons.2 ⟨hasTables_iff.2 ⟨c, hc⟩, h.defined⟩
  · exact List.forall_mem_cons.2
      ⟨Relation.TransGen.single hs, fun b hb => (h.below b hb).tail hs⟩
  · have := h.depth
    rw [List.length_cons]
    omega

theorem Recalls.store {t : Computed InterfaceMap} (hm : Recalls P m) (ht : P d t)
    (busy : List (Facet × Descriptor)) :
    Recalls P { m with interfaces := (d, t) :: m.interfaces, busy := busy } := by
  intro e t' ht'
  by_cases hed : e = d
  · subst hed
    simp only [List.lookup_cons_self, Option.some.injEq] at ht'
    exact ht' ▸ ht
  · simp only [List.lookup_cons, show (e == d) = false by simpa using hed] at ht'
    exact hm e t' ht'

theorem interfacesWithin_gives (hP : p.Collects P) (hr : p.Collecting n d m) (hm : Recalls P m) :
    P d ((p.interfacesWithin n d).run m).1 ∧ Recalls P ((p.interfacesWithin n d).run m).2 := by
  induction n generalizing d m with
  | zero =>
    have := length_le_size hr.nodup hr.defined
    have := hr.depth
    omega
  | succ n ih =>
    simp only [interfacesWithin]
    cases hshape : p.shape d with
    | unknown => exact ⟨eq_unknown_of_shape hshape ▸ hP.unknown, hm⟩
    | array => exact ⟨hP.array d (isArray_of_shape hshape), hm⟩
    | missing => exact ⟨hP.missing d hshape, hm⟩
    | defined c =>
      have hc := classDefinition_ok_iff.2 hshape
      dsimp only
      rw [once_run]
      cases hlookup : m.interfaces.lookup d with
      | some t => exact ⟨hm d t hlookup, hm⟩
      | none =>
        cases hbusy : m.isBusy .interfaces d with
        | true => exact ⟨hP.circular d (hr.below d (Memo.mem_busyWith.2 hbusy)), hm⟩
        | false =>
          have hfree : d ∉ m.busyWith .interfaces := fun hmem => by
            simp [Memo.mem_busyWith.1 hmem] at hbusy
          -- while the class is busy, every table that is answered or remembered has
          -- the property, and the marks are back in place after each question
          obtain ⟨ht, -, hrecalls⟩ := hP.collected d c hc
            (fun m' => m'.busyWith .interfaces = d :: m.busyWith .interfaces ∧ Recalls P m')
            (p.interfacesWithin n) (fun s hs m' hm' => by
              obtain ⟨hmarks, hrecalls⟩ := hm'
              obtain ⟨ht, hleft⟩ := ih (hr.enter hc hfree hs hmarks) hrecalls
              exact ⟨ht, ((p.interfacesWithin_grows n s m').busyWith _).trans hmarks, hleft⟩)
            (m.enter .interfaces d) ⟨m.busyWith_enter _ _, hm⟩
          exact ⟨ht, Recalls.store hrecalls ht _⟩

/-- A memo between two interface questions. -/
structure Recalling (P : Descriptor → Computed InterfaceMap → Prop) (m : Memo) : Prop where
  idle : m.busyWith .interfaces = []
  recalls : Recalls P m

theorem interfaces_gives (hP : p.Collects P) (d : Descriptor) :
    Gives (Recalling P) (P d) (p.interfaces d) := by
  intro m hm
  have hr : p.Collecting (p.size + 2) d m := by
    constructor <;> simp [hm.idle]
  obtain ⟨ht, hleft⟩ := interfacesWithin_gives hP hr hm.recalls
  exact ⟨ht, ((p.interfacesWithin_grows _ d m).busyWith _).trans hm.idle, hleft⟩

/-! ## Histories -/

theorem Recalling.enter (hm : Recalling P m) {f : Facet} (hf : f ≠ .interfaces)
    (d : Descriptor) : Recalling P (m.enter f d) :=
  ⟨by simpa [Memo.busyWith, Memo.enter, hf] using hm.idle, hm.recalls⟩

theorem Recalling.leave (hm : Recalling P m) (f : Facet) (d : Descriptor) :
    Recalling P (m.leave f d) := by
  refine ⟨?_, hm.recalls⟩
  have hfewer := (List.erase_sublist (a := (f, d)) (l := m.busy)).filterMap
    fun e => if e.1 = Facet.interfaces then some e.2 else none
  rw [show m.busy.filterMap _ = [] from hm.idle] at hfewer
  exact List.sublist_nil.1 hfewer

theorem layout_preserves (d : Descriptor) : Preserves (Recalling P) (p.layout d) := by
  simp only [layout, layoutWithin_eq]
  refine TableKind.within_preserves (fun d m hm => hm.enter (by decide) d) (fun d t m hm => ?_)
    (fun _ _ => Preserves.pure _) _ d
  have hleft := hm.leave .layout d
  exact ⟨hleft.idle, hleft.recalls⟩

theorem vtable_preserves (hP : p.Collects P) (d : Descriptor) :
    Preserves (Recalling P) (p.vtable d) := by
  simp only [vtable, vtableWithin_eq]
  refine TableKind.within_preserves (fun d m hm => hm.enter (by decide) d) (fun d t m hm => ?_)
    (fun i c => ?_) _ d
  · have hleft := hm.leave .vtable d
    exact ⟨hleft.idle, hleft.recalls⟩
  · have hask (d : Descriptor) : Preserves (Recalling P) (p.interfaces d) :=
      (interfaces_gives hP d).mono fun _ _ => trivial
    exact Preserves.bind (p.vtableOver_preserves hask i.value c) fun _ => Preserves.pure _

/-- Whatever was asked before, only tables with the property are remembered. -/
theorem recalling_after (hP : p.Collects P) (history : List (Facet × Descriptor)) :
    Recalling P (p.memoAfter history) := by
  refine p.memoAfter_of_asked ⟨rfl, fun d t ht => nomatch ht⟩ (fun m q hm => ?_) history
  obtain ⟨f, d⟩ := q
  cases f with
  | interfaces => exact (interfaces_gives hP d m hm).2
  | layout => exact (layout_preserves d m hm).2
  | vtable => exact (vtable_preserves hP d m hm).2

end ClassPath

end SymbolicDex
