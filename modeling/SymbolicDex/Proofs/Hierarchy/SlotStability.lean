import SymbolicDex.Proofs.Hierarchy.TableHistory

/- Virtual method tables under subclassing. A method takes a slot only if it has
   the signature of the method there, and everything else goes to the end, so
   the signatures of the inherited table stay a front part of the new one.

   What is proved:
     1. `override_kept`, `supply_kept`, `addDefault_kept`: one method put into a
        table keeps the signatures of its slots.
     2. `vtableOver_kept`: so do all methods of a class and its interfaces.
     3. `vtable_keeps_slots`: the table of a class has the slots of that of its
        superclass, for both strategies, after every history and whichever of
        the two is asked for first. -/
namespace SymbolicDex

/-- Name and prototype of the method in a slot. -/
def VtableEntry.signature (e : VtableEntry) : String × Prototype :=
  (e.method.name, e.method.prototype)

namespace Vtable

variable {t t' t'' : Vtable} {e : VtableEntry} {checked : Bool} {owner : Descriptor}

/-- Every slot of `t` is there in `t'`, with a method of the same name and
    prototype. -/
structure SlotsKept (t t' : Vtable) : Prop where
  length_le : t.length ≤ t'.length
  same : ∀ (i : Nat) (a b : VtableEntry), t[i]? = some a → t'[i]? = some b →
    b.method.name = a.method.name ∧ b.method.prototype = a.method.prototype

/-- In other words the signatures are a front part of the new ones. -/
theorem slotsKept_iff :
    SlotsKept t t' ↔ t.map VtableEntry.signature <+: t'.map VtableEntry.signature := by
  constructor
  · intro h
    rw [List.prefix_iff_eq_take]
    refine List.ext_getElem? fun i => ?_
    rw [List.length_map, List.getElem?_take]
    by_cases hi : i < t.length
    · have hi' : i < t'.length := Nat.lt_of_lt_of_le hi h.length_le
      have hsame := h.same i t[i] t'[i] (List.getElem?_eq_getElem hi)
        (List.getElem?_eq_getElem hi')
      simp [hi, hi', VtableEntry.signature, hsame.1, hsame.2]
    · simp [hi]
  · intro h
    refine ⟨by simpa using h.length_le, fun i a b ha hb => ?_⟩
    obtain ⟨rest, hrest⟩ := h
    have hsig : (t'.map VtableEntry.signature)[i]? = (t.map VtableEntry.signature)[i]? := by
      rw [← hrest]
      exact List.getElem?_append_left (by
        rw [List.length_map]
        exact (List.getElem?_eq_some_iff.1 ha).1)
    simpa [ha, hb, VtableEntry.signature] using hsig

theorem SlotsKept.refl (t : Vtable) : SlotsKept t t :=
  slotsKept_iff.2 (List.prefix_refl _)

theorem SlotsKept.trans (h : SlotsKept t t') (h' : SlotsKept t' t'') : SlotsKept t t'' :=
  slotsKept_iff.2 ((slotsKept_iff.1 h).trans (slotsKept_iff.1 h'))

theorem SlotsKept.append (t added : Vtable) : SlotsKept t (t ++ added) := by
  refine slotsKept_iff.2 ?_
  rw [List.map_append]
  exact List.prefix_append _ _

/-- The slot that a method takes has its signature. -/
theorem signature_of_slot? {i : Nat} (h : slot? checked owner t e = some i) :
    (t.map VtableEntry.signature)[i]? = some e.signature := by
  obtain ⟨hi, hp, -⟩ := List.findIdx?_eq_some_iff_getElem.1 h
  simp only [MethodRef.sameSignature, Bool.and_eq_true, beq_iff_eq] at hp
  simp [hi, VtableEntry.signature, hp.1.1, hp.1.2]

theorem SlotsKept.set {i : Nat} (h : slot? checked owner t e = some i) :
    SlotsKept t (t.set i e) := by
  have hsame : (t.set i e).map VtableEntry.signature = t.map VtableEntry.signature := by
    obtain ⟨hi, hsig⟩ := List.getElem?_eq_some_iff.1 (signature_of_slot? h)
    rw [List.map_set, ← hsig]
    exact List.set_getElem_self hi
  exact slotsKept_iff.2 (hsame ▸ List.prefix_refl _)

theorem override_kept (t : Vtable) (e : VtableEntry) :
    SlotsKept t (override checked owner t e) := by
  unfold override
  split
  · next h => exact SlotsKept.set h
  · exact SlotsKept.append _ _

theorem supply_kept (t : Vtable) (e : VtableEntry) : SlotsKept t (supply checked owner t e) := by
  unfold supply
  split
  · exact SlotsKept.refl t
  · exact SlotsKept.append _ _

/-- What one step keeps, a whole loop keeps. -/
theorem SlotsKept.foldl {step : Vtable → VtableEntry → Vtable}
    (hstep : ∀ t e, SlotsKept t (step t e)) (es : List VtableEntry) (t : Vtable) :
    SlotsKept t (es.foldl step t) := by
  induction es generalizing t with
  | nil => exact SlotsKept.refl t
  | cons e es ih => exact (hstep t e).trans (ih (step t e))

theorem withOwn_kept (c : ClassDef) (t : Vtable) : SlotsKept t (withOwn checked c t) :=
  SlotsKept.foldl override_kept _ t

theorem withInterfaces_kept (pick : MethodDef → Bool) (ifaces : List ClassDef) (t : Vtable) :
    SlotsKept t (withInterfaces checked owner pick ifaces t) :=
  SlotsKept.foldl supply_kept _ t

end Vtable

namespace Query

variable {α β : Type} {P : α → Prop} {Q : β → Prop}

/-- Whatever the memo holds, the answer satisfies `P`. -/
def Yields (P : α → Prop) (q : Query α) : Prop := ∀ m : Memo, P (q.run m).1

theorem Yields.pure {a : α} (h : P a) : Yields P (Pure.pure a : Query α) := fun _ => h

theorem Yields.bind {q : Query α} {f : α → Query β} (hf : ∀ a, Yields Q (f a)) :
    Yields Q (q >>= f) := by
  intro m
  rw [run_bind]
  exact hf _ _

theorem Yields.ite {c : Prop} [Decidable c] {q r : Query α} (hq : Yields P q)
    (hr : Yields P r) : Yields P (if c then q else r) := by
  by_cases h : c
  · simpa only [h, if_true] using hq
  · simpa only [h, if_false] using hr

end Query

namespace ClassPath

open Vtable Query

variable (p : ClassPath)

theorem addDefault_kept (owner : Descriptor) (inherited : Nat) (t : Vtable) (e : VtableEntry) :
    Yields (SlotsKept t) (p.addDefault owner inherited t e) := by
  have hstay : Yields (SlotsKept t) (pure t : Query Vtable) := Yields.pure (SlotsKept.refl t)
  unfold addDefault
  split
  · exact Yields.pure (SlotsKept.append _ _)
  · next i hi =>
    have htaken : Yields (SlotsKept t)
        (pure (if i < inherited then t.set i e ++ [e] else t.set i e) : Query Vtable) := by
      refine Yields.pure ?_
      by_cases h : i < inherited
      · rw [if_pos h]
        exact (SlotsKept.set hi).trans (SlotsKept.append _ _)
      · rw [if_neg h]
        exact SlotsKept.set hi
    split
    · exact hstay
    · dsimp only
      refine Yields.ite hstay (Yields.ite (Yields.bind fun r => ?_) (Yields.ite htaken hstay))
      split
      · exact htaken
      · exact hstay

theorem withDefaults_kept (owner : Descriptor) (ifaces : List ClassDef) (inherited : Nat)
    (t : Vtable) : Yields (SlotsKept t) (p.withDefaults owner ifaces inherited t) := by
  unfold withDefaults
  induction ifaces.flatMap (interfaceEntries owner (!·.access.isAbstract)) generalizing t with
  | nil => exact Yields.pure (SlotsKept.refl t)
  | cons e es ih =>
    intro m
    rw [List.foldlM_cons, run_bind]
    exact (p.addDefault_kept owner inherited t e m).trans (ih _ _)

theorem vtableOver_kept (inherited : Vtable) (c : ClassDef) :
    Yields (fun t => SlotsKept inherited t.value) (p.vtableOver inherited c) := by
  unfold vtableOver
  refine Yields.ite (Yields.pure (SlotsKept.refl inherited)) (Yields.bind fun ifaces => ?_)
  have hown : SlotsKept inherited (withOwn p.runtime.checksPackagePrivate c inherited) :=
    withOwn_kept c inherited
  intro m
  dsimp only
  split
  · exact hown.trans (withInterfaces_kept _ _ _)
  · rw [run_bind]
    exact (hown.trans (p.withDefaults_kept _ _ _ _ m)).trans (withInterfaces_kept _ _ _)

variable {p} {m : Memo} {d s : Descriptor} {c : ClassDef} {t : Computed Vtable}

/-- What the record says of a table and the one of the class above. -/
theorem Orderly.vtable_above (h : p.Orderly m) (hd : p.Settled true d)
    (hs : p.Below true d s) (ht : m.vtables.lookup d = some t) :
    ∃ ts, m.vtables.lookup s = some ts ∧ SlotsKept ts.value t.value := by
  obtain ⟨c, a, -, ha, m', hbuilt⟩ := h.vtables d t ht hd
  unfold TableKind.Inherits at ha
  rw [show p.above? TableKind.vtable.fallback d = some s from hs] at ha
  obtain ⟨ts, hts, rfl⟩ := ha
  exact ⟨ts, hts, hbuilt ▸ p.vtableOver_kept _ _ m'⟩

/-- The table of a class has every slot of that of its superclass, with a method
    of the same name and prototype, whichever is asked for first. -/
theorem vtable_keeps_slots (p : ClassPath) (history : List (Facet × Descriptor))
    {d s : Descriptor} {c : ClassDef} (hc : p.classDefinition d = .ok c)
    (hs : c.superclass = some s) (hd : p.Rooted d) :
    (∃ t ts : Computed Vtable,
      ((do return (← p.vtable d, ← p.vtable s) : Query _).run (p.memoAfter history)).1 =
        (.ok t, .ok ts) ∧ SlotsKept ts.value t.value) ∧
    (∃ t ts : Computed Vtable,
      ((do return (← p.vtable s, ← p.vtable d) : Query _).run (p.memoAfter history)).1 =
        (.ok ts, .ok t) ∧ SlotsKept ts.value t.value) := by
  have horderly := p.orderly_after history
  generalize p.memoAfter history = m at horderly
  have howner := tableOwner_of_classDefinition hc
  have habove := hd.above hc hs
  have hsettled : p.Settled true d := howner ▸ hd.settled true
  have hbelow := below_superclass hc hs habove.hasTables true
  constructor
  · obtain ⟨t, ht, hlookup⟩ := (horderly.vtable_outcome d).answer hd.hasTables (hd.settled true)
    rw [howner] at hlookup
    obtain ⟨ts, hts, hkept⟩ := (horderly.vtable d).vtable_above hsettled hbelow hlookup
    -- the superclass is found where the class has left it
    have hsecond := vtable_remembered habove.hasTables hts
    refine ⟨t, ts, ?_, hkept⟩
    simp only [run_bind, run_pure, hsecond, ht]
  · obtain ⟨ts, hts, hlookup⟩ :=
      (horderly.vtable_outcome s).answer habove.hasTables (habove.settled true)
    have horderly' := horderly.vtable s
    obtain ⟨t, ht, hlookup'⟩ := (horderly'.vtable_outcome d).answer hd.hasTables (hd.settled true)
    rw [howner] at hlookup'
    obtain ⟨ts', hts', hkept⟩ := (horderly'.vtable d).vtable_above hsettled hbelow hlookup'
    -- the class has started from what was answered for the superclass
    have hkeep := ((p.vtable_steady d).grows ((p.vtable s).run m).2).vtables _ _ hlookup
    obtain rfl : ts' = ts := Option.some.inj (hts'.symm.trans hkeep)
    refine ⟨t, ts', ?_, hkept⟩
    simp only [run_bind, run_pure, hts, ht]

end ClassPath

/-! ## A class that overrides, adds and implements -/

namespace Sample

def task : MethodDef := { name := "run", prototype := ⟨[], "V"⟩, access := ⟨1⟩ }

def tasks : ClassDef :=
  { descriptor := "LTask;", access := ⟨0x601⟩, superclass := some Descriptor.object
    methods := [task, { name := "rest", prototype := ⟨[], "V"⟩, access := ⟨1⟩ }] }

def worker : ClassDef :=
  { descriptor := "LWorker;", access := ⟨1⟩, superclass := some Descriptor.object
    methods := [{ name := "report", prototype := ⟨["I"], "V"⟩, access := ⟨1⟩ }, task] }

def foreman : ClassDef :=
  { descriptor := "LForeman;", access := ⟨1⟩, superclass := some "LWorker;"
    interfaces := ["LTask;"]
    methods := [{ name := "assign", prototype := ⟨[], "V"⟩, access := ⟨1⟩ }, task] }

/-- A class path of Android 7, where interfaces have default methods. -/
def workers : ClassPath :=
  ⟨⟨24, noArt⟩, [⟨[{ descriptor := Descriptor.object, access := ⟨1⟩, superclass := none },
    tasks, worker, foreman]⟩], ⟨[]⟩⟩

end Sample

open Sample in
theorem foreman_keeps_slots :
    workers.classDefinition "LForeman;" = .ok foreman ∧ workers.Rooted "LForeman;" ∧
      (∃ t ts : Computed Vtable,
        ((do return (← workers.vtable "LForeman;", ← workers.vtable "LWorker;") : Query _).run
          (workers.memoAfter [(.interfaces, "LForeman;")])).1 = (.ok t, .ok ts) ∧
          Vtable.SlotsKept ts.value t.value) ∧
      (∃ t ts : Computed Vtable,
        ((do return (← workers.vtable "LWorker;", ← workers.vtable "LForeman;") : Query _).run
          (workers.memoAfter [(.interfaces, "LForeman;")])).1 = (.ok ts, .ok t) ∧
          Vtable.SlotsKept ts.value t.value) := by
  have hc : workers.classDefinition "LForeman;" = .ok foreman := by decide +kernel
  have hd : workers.Rooted "LForeman;" := by
    refine .under (c := foreman) (s := "LWorker;") (by decide +kernel) rfl ?_
    refine .under (c := worker) (s := Descriptor.object) (by decide +kernel) rfl ?_
    exact .root (c := { descriptor := Descriptor.object, access := ⟨1⟩, superclass := none })
      (by decide +kernel) rfl
  exact ⟨hc, hd, workers.vtable_keeps_slots _ hc rfl hd⟩

end SymbolicDex
