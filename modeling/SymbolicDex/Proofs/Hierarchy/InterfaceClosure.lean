import SymbolicDex.Proofs.Hierarchy.InterfaceMembership
import SymbolicDex.Proofs.Hierarchy.TableOrigins

/- Complete interface tables are closed: what an interface in the table has is in
   the table too. This is said of the tables that are remembered and needs nothing
   of the declarations, for a class that meets itself does not get a complete
   table. The two interfaces of arrays are apart. An array has them without what
   they extend, and so has whatever gets them through an array.

   What is proved:
     1. `interfacesWithin_closed`: one question leaves complete tables closed.
     2. `closed_after`: so does any history.
     3. `implements_across`: three interfaces that are asked about in pairs cannot
        have one another in a circle. -/
namespace SymbolicDex

namespace InterfaceMap

/-- Everything in the first map is in the second. -/
def Within (s t : InterfaceMap) : Prop := ∀ i, s.contains i = true → t.contains i = true

theorem Within.refl (t : InterfaceMap) : t.Within t := fun _ h => h

theorem Within.trans {s t u : InterfaceMap} (h : s.Within t) (h' : t.Within u) : s.Within u :=
  fun i hi => h' i (h i hi)

theorem contains_insert {t : InterfaceMap} {d i : Descriptor} {e : InterfaceEntry} :
    (t.insert d e).contains i = true ↔ t.contains i = true ∨ i = d := by
  simp only [contains, get?_insert, Option.isSome_or, Bool.or_eq_true, eq_comm (a := i)]
  refine or_congr_right ?_
  split <;> simp_all

theorem contains_insertAll {t s : InterfaceMap} {i : Descriptor} :
    (t.insertAll s.entries).contains i = true ↔ t.contains i = true ∨ s.contains i = true := by
  simp only [contains, get?_insertAll, Option.isSome_or, Bool.or_eq_true]

theorem contains_through {s : InterfaceMap} {i : Descriptor} :
    (InterfaceMap.mk (s.entries.map fun e => (e.1, e.2.throughSuperclass))).contains i = true ↔
      s.contains i = true := by
  simp only [contains, get?_through, Option.isSome_map]

end InterfaceMap

namespace ClassPath

open Query InterfaceMap

variable (p : ClassPath)

/-- The interface table of a descriptor, as far as the memo has it. What is not a
    defined class has a fixed one. -/
def Known (m : Memo) (d : Descriptor) (t : Computed InterfaceMap) : Prop :=
  match p.shape d with
  | .unknown => t = ⟨InterfaceMap.empty, true⟩
  | .array => t = ⟨InterfaceMap.ofArray, true⟩
  | .missing => t = ⟨InterfaceMap.empty, false⟩
  | .defined _ => m.interfaces.lookup d = some t

/-- The table has all that `i` has, or all that arrays have and `i` among them. -/
def Covered (m : Memo) (t : InterfaceMap) (i : Descriptor) : Prop :=
  (∃ ti, p.Known m i ti ∧ ti.complete = true ∧ ti.value.Within t) ∨
    InterfaceMap.ofArray.contains i = true ∧ InterfaceMap.ofArray.Within t

/-- Complete tables have what their interfaces have. -/
def TablesClosed (m : Memo) : Prop :=
  ∀ d t, p.Known m d t → t.complete = true → ∀ i, t.value.contains i = true →
    p.Covered m t.value i

variable {p} {m m' : Memo} {d i s : Descriptor} {t t' : Computed InterfaceMap} {c : ClassDef}

theorem Known.unique (h : p.Known m d t) (h' : p.Known m d t') : t = t' := by
  unfold Known at h h'
  split at h <;> simp_all

theorem Known.mono (h : p.Known m d t) (hm : m.InterfacesIn m') : p.Known m' d t := by
  unfold Known at h ⊢
  split at h
  · assumption
  · assumption
  · assumption
  · exact hm d t h

theorem Known.run (h : p.Known m d t) : (p.interfaces d).run m = (t, m) := by
  cases hshape : p.shape d with
  | defined c =>
    rw [Known, hshape] at h
    exact interfaces_remembered (classDefinition_ok_iff.2 hshape) h
  | _ =>
    simp only [Known, hshape] at h
    rw [interfaces, interfacesWithin, hshape, h]
    rfl

theorem interfaces_known (hm : m.busyWith .interfaces = []) (d : Descriptor) :
    p.Known ((p.interfaces d).run m).2 d ((p.interfaces d).run m).1 := by
  cases hshape : p.shape d with
  | defined c =>
    rw [Known, hshape]
    exact interfaces_found (classDefinition_ok_iff.2 hshape) hm
  | _ =>
    simp only [Known, hshape]
    rw [interfaces, interfacesWithin, hshape]
    rfl

theorem Covered.mono {u u' : InterfaceMap} (h : p.Covered m u i) (hm : m.InterfacesIn m')
    (hu : u.Within u') : p.Covered m' u' i :=
  h.imp (fun ⟨ti, hti, hcomplete, hwithin⟩ => ⟨ti, hti.mono hm, hcomplete, hwithin.trans hu⟩)
    fun ⟨hi, hwithin⟩ => ⟨hi, hwithin.trans hu⟩

/-- What is not a defined class is closed as it is. -/
theorem closed_iff : p.TablesClosed m ↔ ∀ d c t, p.shape d = .defined c →
    m.interfaces.lookup d = some t → t.complete = true →
    ∀ i, t.value.contains i = true → p.Covered m t.value i := by
  constructor
  · intro h d c t hshape ht
    exact h d t (by rwa [Known, hshape])
  · intro h d t hknown hcomplete i hi
    cases hshape : p.shape d with
    | defined c =>
      rw [Known, hshape] at hknown
      exact h d c t hshape hknown hcomplete i hi
    | array =>
      simp only [Known, hshape] at hknown
      subst hknown
      exact .inr ⟨hi, Within.refl _⟩
    | _ =>
      simp only [Known, hshape] at hknown
      subst hknown
      cases hi

variable (p) in
/-- A memo with closed tables, in which no busy class has one. -/
structure Tended (m : Memo) : Prop where
  closed : p.TablesClosed m
  blank : ∀ b ∈ m.busyWith .interfaces, m.interfaces.lookup b = none

/-- Marks and other tables do not matter. -/
theorem TablesClosed.congr (h : p.TablesClosed m) (hm : m'.interfaces = m.interfaces) :
    p.TablesClosed m' := by
  rw [closed_iff] at h ⊢
  intro d c t hshape ht hcomplete i hi
  refine (h d c t hshape (by rwa [← hm]) hcomplete i hi).mono ?_ (Within.refl _)
  intro d t ht
  rwa [hm]

/-! ## Collecting -/

variable (p) in
/-- What a question for the interfaces of a class leaves: closed tables, its own
    among them if it is complete. -/
structure Closes (d : Descriptor) (m : Memo) (r : Computed InterfaceMap × Memo) : Prop where
  grows : m.Grows r.2
  tended : p.Tended r.2
  known : r.1.complete = true → p.Known r.2 d r.1

variable (p) in
/-- A table that is being put together for `d`, from the memo `m` on. -/
structure Gathering (d : Descriptor) (m : Memo) (r : Computed InterfaceMap × Memo) : Prop where
  grows : m.Grows r.2
  tended : p.Tended r.2
  covered : r.1.complete = true → ∀ i, r.1.value.contains i = true →
    i = d ∨ p.Covered r.2 r.1.value i

/-- Adding what a class has to a table: all of it is covered by the table of that
    class. -/
theorem Gathering.add {r sub : Computed InterfaceMap × Memo} {u : InterfaceMap} {b : Bool}
    (h : p.Gathering d m r) (hs : p.Closes s r.2 sub)
    (hacc : r.1.value.Within u) (hsub : sub.1.value.Within u)
    (hu : ∀ i, u.contains i = true →
      r.1.value.contains i = true ∨ i = s ∨ sub.1.value.contains i = true) :
    p.Gathering d m (⟨u, r.1.complete && b && sub.1.complete⟩, sub.2) where
  grows := h.grows.trans hs.grows
  tended := hs.tended
  covered hcomplete i hi := by
    simp only [Bool.and_eq_true] at hcomplete
    obtain ⟨⟨hcomplete, -⟩, hsubcomplete⟩ := hcomplete
    have hknown := hs.known hsubcomplete
    rcases hu i hi with hi | rfl | hi
    · exact (h.covered hcomplete i hi).imp_right fun hcovered =>
        hcovered.mono hs.grows.interfaces hacc
    · exact .inr (.inl ⟨sub.1, hknown, hsubcomplete, hsub⟩)
    · exact .inr ((hs.tended.closed s _ hknown hsubcomplete i hi).mono (fun _ _ h => h) hsub)

section Collected

variable {interfacesOf : Descriptor → Query (Computed InterfaceMap)}
  (hof : ∀ s m, p.Tended m → p.Closes s m ((interfacesOf s).run m))
include hof

theorem addInterface_gathers {r : Computed InterfaceMap × Memo} (h : p.Gathering d m r)
    (s : Descriptor) : p.Gathering d m ((p.addInterface interfacesOf r.1 s).run r.2) := by
  unfold addInterface
  split
  · exact h
  · have hs := hof s r.2 h.tended
    rw [run_bind]
    exact h.add hs (fun i hi => contains_insertAll.2 (.inl (contains_insert.2 (.inl hi))))
      (fun i hi => contains_insertAll.2 (.inr hi)) fun i hi => by
        rwa [contains_insertAll, contains_insert, or_assoc] at hi

theorem foldlM_gathers {r : Computed InterfaceMap × Memo} (h : p.Gathering d m r)
    (ss : List Descriptor) :
    p.Gathering d m ((ss.foldlM (p.addInterface interfacesOf) r.1).run r.2) := by
  induction ss generalizing r with
  | nil => exact h
  | cons s ss ih =>
    rw [List.foldlM_cons, run_bind]
    exact ih (addInterface_gathers hof h s)

theorem collectInterfaces_gathers (hm : p.Tended m) (c : ClassDef) :
    p.Gathering c.descriptor m ((p.collectInterfaces interfacesOf c).run m) := by
  have hempty : p.Gathering c.descriptor m (⟨InterfaceMap.empty, true⟩, m) :=
    ⟨Memo.Grows.refl m, hm, fun _ i hi => by cases hi⟩
  have hdeclared := foldlM_gathers hof hempty c.interfaces
  unfold collectInterfaces
  rw [run_bind]
  generalize (c.interfaces.foldlM (p.addInterface interfacesOf) ⟨InterfaceMap.empty, true⟩).run m =
    r at hdeclared
  -- the class itself is what is not covered until its table is stored
  have hself : p.Gathering c.descriptor m (if c.isInterface then
      ⟨r.1.value.insert c.descriptor .inherited, r.1.complete⟩ else r.1, r.2) := by
    split
    · refine ⟨hdeclared.grows, hdeclared.tended, fun hcomplete i hi => ?_⟩
      rcases contains_insert.1 hi with hi | rfl
      · exact (hdeclared.covered hcomplete i hi).imp_right fun hcovered =>
          hcovered.mono (fun _ _ h => h) fun i hi => contains_insert.2 (.inl hi)
      · exact .inl rfl
    · exact hdeclared
  dsimp only
  split
  · next s _ =>
    have hs := hof s _ hself.tended
    unfold addInherited
    rw [run_bind]
    refine hself.add hs (fun i hi => ?_) (fun i hi => ?_) fun i hi => ?_
    · exact contains_insertAll.2 (.inl hi)
    · exact contains_insertAll.2 (.inr (contains_through.2 hi))
    · rw [contains_insertAll, contains_through] at hi
      exact hi.imp_right .inr
  · exact hself

end Collected

/-! ## Questions and histories -/

theorem Tended.enter (h : p.Tended m) (hblank : m.interfaces.lookup d = none) :
    p.Tended (m.enter .interfaces d) where
  closed := h.closed.congr rfl
  blank := by
    rw [Memo.busyWith_enter]
    exact List.forall_mem_cons.2 ⟨hblank, h.blank⟩

/-- The table of a class is stored, and covers the class itself. -/
theorem Gathering.stored {r : Computed InterfaceMap × Memo} (hshape : p.shape d = .defined c)
    (h : p.Gathering d (m.enter .interfaces d) r) (hblank : m.interfaces.lookup d = none)
    (hfree : m.isBusy .interfaces d = false) :
    p.Closes d m (r.1, { r.2.leave .interfaces d with
      interfaces := (d, r.1) :: (r.2.leave .interfaces d).interfaces }) := by
  have hmarks : r.2.busyWith .interfaces = d :: m.busyWith .interfaces := by
    rw [h.grows.busyWith, Memo.busyWith_enter]
  have hblanks := h.tended.blank
  rw [hmarks, List.forall_mem_cons] at hblanks
  generalize hstored : { r.2.leave .interfaces d with
    interfaces := (d, r.1) :: (r.2.leave .interfaces d).interfaces } = m'
  have hinterfaces : m'.interfaces = (d, r.1) :: r.2.interfaces := by rw [← hstored]; rfl
  have hbusy : m'.busy = m.busy := by
    rw [← hstored]
    exact (Memo.Grows.leave h.grows).busy
  have hkept : r.2.InterfacesIn m' := by
    rw [Memo.InterfacesIn, hinterfaces]
    exact Memo.Grows.lookup_cons r.1 (fun _ _ h => h) hblanks.1
  have hknown : p.Known m' d r.1 := by
    rw [Known, hshape, hinterfaces]
    exact List.lookup_cons_self
  have hgrows : m.Grows m' := by
    rw [← hstored]
    exact { Memo.Grows.leave h.grows with
      interfaces := Memo.Grows.lookup_cons r.1 h.grows.interfaces hblank }
  refine ⟨hgrows, ⟨?_, fun b hb => ?_⟩, fun _ => hknown⟩
  · refine closed_iff.2 fun e c' t he ht hcomplete i hi => ?_
    rw [hinterfaces] at ht
    by_cases hed : e = d
    · subst hed
      rw [List.lookup_cons_self, Option.some.injEq] at ht
      subst ht
      rcases h.covered hcomplete i hi with rfl | hcovered
      · exact .inl ⟨r.1, hknown, hcomplete, Within.refl _⟩
      · exact hcovered.mono hkept (Within.refl _)
    · rw [List.lookup_cons, show (e == d) = false by simpa using hed] at ht
      exact (closed_iff.1 h.tended.closed e c' t he ht hcomplete i hi).mono hkept (Within.refl _)
  · have hmem : b ∈ m.busyWith .interfaces := by
      simpa only [Memo.busyWith, hbusy] using hb
    have hbd : b ≠ d := by
      rintro rfl
      rw [Memo.mem_busyWith, hfree] at hmem
      cases hmem
    rw [hinterfaces, List.lookup_cons, show (b == d) = false by simpa using hbd]
    exact hblanks.2 b hmem

theorem interfacesWithin_closed (n : Nat) (d : Descriptor) (hm : p.Tended m) :
    p.Closes d m ((p.interfacesWithin n d).run m) := by
  induction n generalizing d m with
  | zero =>
    refine ⟨Memo.Grows.refl m, hm, fun hcomplete => ?_⟩
    cases hcomplete
  | succ n ih =>
    simp only [interfacesWithin]
    cases hshape : p.shape d with
    | defined c =>
      obtain rfl := definition?_descriptor
        (definition?_of_classDefinition (classDefinition_ok_iff.2 hshape))
      dsimp only
      rw [once_run]
      cases hlookup : m.interfaces.lookup c.descriptor with
      | some t => exact ⟨Memo.Grows.refl m, hm, fun _ => by rwa [Known, hshape]⟩
      | none =>
        cases hbusy : m.isBusy .interfaces c.descriptor with
        -- a class that meets itself is told that something is missing
        | true =>
          refine ⟨Memo.Grows.refl m, hm, fun hcomplete => ?_⟩
          cases hcomplete
        | false =>
          exact (collectInterfaces_gathers (fun s m hm => ih s hm) (hm.enter hlookup) c).stored
            hshape hlookup hbusy
    | _ =>
      refine ⟨Memo.Grows.refl m, hm, fun _ => ?_⟩
      simp only [Known, hshape]
      rfl

/-- Marks for other tables do not matter. -/
theorem Tended.marks (h : p.Tended m) (hm : m'.interfaces = m.interfaces)
    (hbusy : m'.busyWith .interfaces ⊆ m.busyWith .interfaces) : p.Tended m' :=
  ⟨h.closed.congr hm, fun b hb => hm ▸ h.blank b (hbusy hb)⟩

theorem Tended.enter_other (h : p.Tended m) {f : Facet} (hf : f ≠ .interfaces) (d : Descriptor) :
    p.Tended (m.enter f d) :=
  h.marks rfl (by simp [Memo.busyWith, Memo.enter, hf])

theorem Tended.leave (h : p.Tended m) (f : Facet) (d : Descriptor) : p.Tended (m.leave f d) :=
  h.marks rfl (List.erase_sublist.filterMap _).subset

theorem interfaces_tended (d : Descriptor) : Preserves p.Tended (p.interfaces d) :=
  fun _ hm => ⟨trivial, (interfacesWithin_closed _ d hm).tended⟩

theorem layout_tended (d : Descriptor) : Preserves p.Tended (p.layout d) := by
  simp only [layout, layoutWithin_eq]
  exact TableKind.within_preserves (fun d m hm => hm.enter_other (by decide) d)
    (fun d t m hm => (hm.leave .layout d).marks rfl (List.Subset.refl _))
    (fun _ _ => Preserves.pure _) _ d

theorem vtable_tended (d : Descriptor) : Preserves p.Tended (p.vtable d) := by
  simp only [vtable, vtableWithin_eq]
  refine TableKind.within_preserves (fun d m hm => hm.enter_other (by decide) d)
    (fun d t m hm => (hm.leave .vtable d).marks rfl (List.Subset.refl _)) (fun i c => ?_) _ d
  exact Preserves.bind (p.vtableOver_preserves interfaces_tended i.value c)
    fun _ => Preserves.pure _

variable (p) in
theorem tended_after (history : List Question) : p.Tended (p.memoAfterAsking history) := by
  have hempty : p.Tended Memo.empty :=
    ⟨closed_iff.2 fun _ _ _ _ ht => (nomatch ht), fun _ hb => (nomatch hb)⟩
  refine p.memoAfterAsking_of_preserves hempty (fun q => ?_) history
  exact (p.ask_composed q).preserves (fun _ => interfaces_tended) (fun _ => layout_tended)
    fun _ => vtable_tended

/-! ## Three interfaces -/

theorem implements_true (h : ((p.implements d i).run m).1 = .ok true) :
    ((p.interfaces d).run m).1.value.contains i = true := by
  rw [implements_run] at h
  rw [contains, Option.isSome_iff_ne_none]
  intro hnone
  rw [hnone] at h
  simp only at h
  split at h <;> cases h

theorem implements_false (h : ((p.implements d i).run m).1 = .ok false) :
    ((p.interfaces d).run m).1.complete = true ∧
      ¬ ((p.interfaces d).run m).1.value.contains i = true := by
  rw [implements_run] at h
  rw [contains, Option.isSome_iff_ne_none, not_not]
  split at h
  · cases h
  · cases h
  · next hnone =>
    split at h
    · next hcomplete => exact ⟨hcomplete, hnone⟩
    · cases h

/-- Where `a` has `b` but not `e`, and `b` has `e`, then `e` cannot have `a` and yet
    not have `b`. -/
theorem implements_across {a b e : Descriptor} (hm : p.Tended m) (ha : p.Known m a t)
    (hab : ((p.implements a b).run m).1 = .ok true)
    (hae : ((p.implements a e).run m).1 = .ok false)
    (hbe : ((p.implements b e).run m).1 = .ok true)
    (hea : ((p.implements e a).run m).1 = .ok true) :
    ((p.implements e b).run m).1 ≠ .ok false := by
  intro heb
  have hasked := interfacesWithin_closed (p.size + 2) e hm
  obtain ⟨hecomplete, heb⟩ := implements_false heb
  have hea := implements_true hea
  have hab := implements_true hab
  have hae := implements_false hae
  simp only [ha.run] at hab hae
  -- the table of `e` has what `a` has, unless `a` is there on account of an array
  rcases hasked.tended.closed e _ (hasked.known hecomplete) hecomplete a hea with
    ⟨ta, hta, -, hwithin⟩ | ⟨-, hwithin⟩
  · rw [hta.unique (ha.mono hasked.grows.interfaces)] at hwithin
    exact heb (hwithin b hab)
  -- in which case `b` is not there like that, and `a` has what `b` has
  · rcases hm.closed a t ha hae.1 b hab with ⟨tb, htb, -, hwithin'⟩ | ⟨hb, -⟩
    · have hbe := implements_true hbe
      rw [htb.run] at hbe
      exact hae.2 (hwithin' e hbe)
    · exact heb (hwithin b hb)

end ClassPath

end SymbolicDex
