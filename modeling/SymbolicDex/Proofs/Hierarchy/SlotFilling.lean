import SymbolicDex.Proofs.Hierarchy.CommonSupertypes
import SymbolicDex.Proofs.Hierarchy.SlotStability
import SymbolicDex.Proofs.Hierarchy.TableOrigins

/- What is in the slots of a virtual method table. Three kinds of methods are put
   into the table that a class inherits, each by looking for the first slot of the
   same signature: those of the class take it, those of its interfaces leave it
   alone, and default methods take it from abstract methods and from interfaces.

   What is proved:
     1. `Vtable.withOwn_changes`, `Vtable.withOwn_declares`: a slot changes only to
        a method of the class, and every method of the class has one.
     2. `Vtable.withInterfaces_grows`, `Vtable.withInterfaces_supplies`: interfaces
        only add to the table, and afterwards none of their methods is missing.
     3. `withDefaults_changes`: default methods do not displace what a class
        declares.
     4. `vtable_unrepeated`: where every slot can be taken, the older way of building
        tables never gives one signature two slots.
     5. `vtable_keeps_methods`: all of this for the table that is answered for a
        class, after every history. -/
namespace SymbolicDex

/-- Name and prototype. -/
def MethodDef.signature (m : MethodDef) : String × Prototype := (m.name, m.prototype)

theorem ClassDef.mem_sortedVirtualMethods {c : ClassDef} {m : MethodDef} :
    m ∈ c.sortedVirtualMethods ↔ m ∈ c.virtualMethods := by
  rw [sortedVirtualMethods, List.mem_mergeSort]

namespace Vtable

variable {t t' t'' : Vtable} {e : VtableEntry} {checked : Bool} {owner : Descriptor}
  {ok : VtableEntry → VtableEntry → Prop}

/-! ## Slots that stay or change -/

/-- Every slot of `t` is there in `t'`, with the same method or one that may come
    after it. -/
structure Changes (ok : VtableEntry → VtableEntry → Prop) (t t' : Vtable) : Prop where
  length_le : t.length ≤ t'.length
  slots : ∀ (i : Nat) (a b : VtableEntry), t[i]? = some a → t'[i]? = some b → b = a ∨ ok a b

theorem Changes.refl (ok : VtableEntry → VtableEntry → Prop) (t : Vtable) : Changes ok t t :=
  ⟨Nat.le_refl _, fun _ _ _ ha hb => .inl (Option.some.inj (hb.symm.trans ha))⟩

theorem Changes.trans (hok : ∀ a b d, ok a b → ok b d → ok a d) (h : Changes ok t t')
    (h' : Changes ok t' t'') : Changes ok t t'' := by
  refine ⟨Nat.le_trans h.length_le h'.length_le, fun i a d ha hd => ?_⟩
  have hi : i < t'.length := Nat.lt_of_lt_of_le (List.getElem?_eq_some_iff.1 ha).1 h.length_le
  have hb := List.getElem?_eq_getElem hi
  rcases h.slots i a _ ha hb with hab | hab
  · rw [hab] at hb
    exact h'.slots i a d hb hd
  · rcases h'.slots i _ d hb hd with rfl | hbd
    · exact .inr hab
    · exact .inr (hok _ _ _ hab hbd)

theorem Changes.of_prefix (h : t <+: t') : Changes ok t t' := by
  refine ⟨h.length_le, fun i a b ha hb => .inl ?_⟩
  obtain ⟨rest, rfl⟩ := h
  rw [List.getElem?_append_left (List.getElem?_eq_some_iff.1 ha).1] at hb
  exact Option.some.inj (hb.symm.trans ha)

theorem Changes.set {i : Nat} {old : VtableEntry} (hold : t[i]? = some old) (h : ok old e) :
    Changes ok t (t.set i e) := by
  refine ⟨by simp, fun j a b ha hb => ?_⟩
  by_cases hij : i = j
  · subst hij
    rw [List.getElem?_set_self (List.getElem?_eq_some_iff.1 ha).1] at hb
    cases hold.symm.trans ha
    exact .inr (Option.some.inj hb ▸ h)
  · rw [List.getElem?_set_ne hij] at hb
    exact .inl (Option.some.inj (hb.symm.trans ha))

/-- What one step may change, a whole loop may. -/
theorem Changes.foldl (hok : ∀ a b d, ok a b → ok b d → ok a d)
    {step : Vtable → VtableEntry → Vtable} {es : List VtableEntry}
    (hstep : ∀ t, ∀ e ∈ es, Changes ok t (step t e)) (t : Vtable) :
    Changes ok t (es.foldl step t) := by
  induction es generalizing t with
  | nil => exact Changes.refl ok t
  | cons e es ih =>
    have hrest := ih (fun t e he => hstep t e (List.mem_cons_of_mem _ he)) (step t e)
    exact (hstep t e List.mem_cons_self).trans hok hrest

/-- The slot that is found has the signature, and may be taken. -/
theorem slot?_eq_some {i : Nat} (h : slot? checked owner t e = some i) :
    ∃ old, t[i]? = some old ∧ old.signature = e.signature ∧
      overridable checked owner old = true := by
  obtain ⟨hi, hp, -⟩ := List.findIdx?_eq_some_iff_getElem.1 h
  rw [Bool.and_eq_true] at hp
  have hsig := signature_of_slot? h
  rw [List.getElem?_map, List.getElem?_eq_getElem hi, Option.map_some] at hsig
  exact ⟨t[i], List.getElem?_eq_getElem hi, Option.some.inj hsig, hp.2⟩

/-! ## Methods of the class -/

/-- What may become of a slot under the methods of a class. -/
def TakenByOwn (checked : Bool) (c : ClassDef) (old new : VtableEntry) : Prop :=
  overridable checked c.descriptor old = true ∧ new.signature = old.signature ∧
    ∃ m ∈ c.virtualMethods, new = .declared c.descriptor m

theorem TakenByOwn.trans {c : ClassDef} (a b d : VtableEntry) (h : TakenByOwn checked c a b)
    (h' : TakenByOwn checked c b d) : TakenByOwn checked c a d :=
  ⟨h.1, h'.2.1.trans h.2.1, h'.2.2⟩

theorem override_changes {c : ClassDef} (t : Vtable)
    (he : ∃ m ∈ c.virtualMethods, e = .declared c.descriptor m) :
    Changes (TakenByOwn checked c) t (override checked c.descriptor t e) := by
  unfold override
  split
  · next i h =>
    obtain ⟨old, hold, hsig, hfree⟩ := slot?_eq_some h
    exact Changes.set hold ⟨hfree, hsig.symm, he⟩
  · exact Changes.of_prefix (List.prefix_append _ _)

theorem mem_override (t : Vtable) (e : VtableEntry) : e ∈ override checked owner t e := by
  unfold override
  split
  · next i h =>
    obtain ⟨old, hold, -⟩ := slot?_eq_some h
    exact List.mem_set (List.getElem?_eq_some_iff.1 hold).1 e
  · exact List.mem_append_right _ List.mem_cons_self

theorem mem_declared {c : ClassDef}
    (he : e ∈ c.sortedVirtualMethods.map (VtableEntry.declared c.descriptor)) :
    ∃ m ∈ c.virtualMethods, e = .declared c.descriptor m := by
  obtain ⟨m, hm, rfl⟩ := List.mem_map.1 he
  exact ⟨m, ClassDef.mem_sortedVirtualMethods.1 hm, rfl⟩

theorem withOwn_changes (c : ClassDef) (t : Vtable) :
    Changes (TakenByOwn checked c) t (withOwn checked c t) :=
  Changes.foldl TakenByOwn.trans (fun t _ he => override_changes t (mem_declared he)) t

/-- There is a slot of the signature that the class declares. -/
def Declares (c : ClassDef) (t : Vtable) (signature : String × Prototype) : Prop :=
  ∃ m ∈ c.virtualMethods, .declared c.descriptor m ∈ t ∧ m.signature = signature

/-- A method of the class gives way only to one of the same signature. -/
theorem Declares.changes {c : ClassDef} {signature : String × Prototype}
    (h : Declares c t signature) (hchanges : Changes (TakenByOwn checked c) t t') :
    Declares c t' signature := by
  obtain ⟨m, hm, hmem, hsig⟩ := h
  obtain ⟨i, hi⟩ := List.mem_iff_getElem?.1 hmem
  have hi' : i < t'.length :=
    Nat.lt_of_lt_of_le (List.getElem?_eq_some_iff.1 hi).1 hchanges.length_le
  have hmem' : t'[i] ∈ t' := List.getElem_mem hi'
  rcases hchanges.slots i _ t'[i] hi (List.getElem?_eq_getElem hi') with
    heq | ⟨-, hsame, m', hm', heq⟩
  · exact ⟨m, hm, heq ▸ hmem', hsig⟩
  · rw [heq] at hmem' hsame
    exact ⟨m', hm', hmem', hsame.trans hsig⟩

theorem withOwn_declares (c : ClassDef) (t : Vtable) {m : MethodDef} (hm : m ∈ c.virtualMethods) :
    Declares c (withOwn checked c t) m.signature := by
  have hmem : .declared c.descriptor m ∈
      c.sortedVirtualMethods.map (VtableEntry.declared c.descriptor) :=
    List.mem_map.2 ⟨m, ClassDef.mem_sortedVirtualMethods.2 hm, rfl⟩
  obtain ⟨before, after, hsplit⟩ := List.append_of_mem hmem
  have hafter (e : VtableEntry) (he : e ∈ after) :
      ∃ m ∈ c.virtualMethods, e = .declared c.descriptor m :=
    mem_declared (hsplit ▸ List.mem_append_right _ (List.mem_cons_of_mem _ he))
  -- the method is put in, and what comes later replaces it with its like
  rw [withOwn, hsplit, List.foldl_append, List.foldl_cons]
  have hput : Declares c (override checked c.descriptor
      (before.foldl (override checked c.descriptor) t) (.declared c.descriptor m)) m.signature :=
    ⟨m, hm, mem_override _ _, rfl⟩
  exact hput.changes
    (Changes.foldl TakenByOwn.trans (fun t e he => override_changes t (hafter e he)) _)

/-! ## Methods of interfaces -/

theorem supply_grows (t : Vtable) (e : VtableEntry) : t <+: supply checked owner t e := by
  unfold supply
  split
  · exact List.prefix_refl t
  · exact List.prefix_append _ _

theorem supply_grows_all (es : List VtableEntry) (t : Vtable) :
    t <+: es.foldl (supply checked owner) t := by
  induction es generalizing t with
  | nil => exact List.prefix_refl t
  | cons e es ih => exact (supply_grows t e).trans (ih _)

theorem supply_supplies (checked : Bool) (owner : Descriptor) (t : Vtable) (e : VtableEntry) :
    ∃ e' ∈ supply checked owner t e, e'.signature = e.signature := by
  unfold supply
  split
  · next i h =>
    obtain ⟨old, hold, hsig, -⟩ := slot?_eq_some h
    exact ⟨old, List.mem_of_getElem? hold, hsig⟩
  · exact ⟨e, List.mem_append_right _ List.mem_cons_self, rfl⟩

theorem withInterfaces_grows (pick : MethodDef → Bool) (ifaces : List ClassDef) (t : Vtable) :
    t <+: withInterfaces checked owner pick ifaces t :=
  supply_grows_all _ t

theorem mem_interfaceEntries {pick : MethodDef → Bool} {iface : ClassDef} :
    e ∈ interfaceEntries owner pick iface ↔
      ∃ m ∈ iface.virtualMethods, pick m = true ∧ e = .implemented owner iface.descriptor m := by
  simp only [interfaceEntries, List.mem_map, List.mem_filter, ClassDef.mem_sortedVirtualMethods,
    and_assoc, eq_comm (a := e)]

/-- Every method that is picked has a slot afterwards. -/
theorem withInterfaces_supplies {pick : MethodDef → Bool} {ifaces : List ClassDef} (t : Vtable)
    {iface : ClassDef} (hiface : iface ∈ ifaces) {m : MethodDef} (hm : m ∈ iface.virtualMethods)
    (hpick : pick m = true) :
    ∃ e ∈ withInterfaces checked owner pick ifaces t, e.signature = m.signature := by
  have hmem : .implemented owner iface.descriptor m ∈
      ifaces.flatMap (interfaceEntries owner pick) :=
    List.mem_flatMap.2 ⟨iface, hiface, mem_interfaceEntries.2 ⟨m, hm, hpick, rfl⟩⟩
  obtain ⟨before, after, hsplit⟩ := List.append_of_mem hmem
  rw [withInterfaces, hsplit, List.foldl_append, List.foldl_cons]
  obtain ⟨e, he, hsig⟩ := supply_supplies checked owner
    (before.foldl (supply checked owner) t) (.implemented owner iface.descriptor m)
  exact ⟨e, (supply_grows_all after _).subset he, hsig⟩

/-! ## One slot for each signature -/

/-- No two slots have the same signature. -/
def Unrepeated (t : Vtable) : Prop := (t.map VtableEntry.signature).Nodup

/-- Where every slot can be taken, a signature without a slot to take has none. -/
theorem signature_not_mem (h : slot? false owner t e = none) :
    e.signature ∉ t.map VtableEntry.signature := by
  intro hmem
  obtain ⟨old, hold, hsig⟩ := List.mem_map.1 hmem
  have hno := List.findIdx?_eq_none_iff.1 h old hold
  obtain ⟨hname, hproto⟩ := Prod.mk.inj hsig
  simp [overridable, MethodRef.sameSignature, hname, hproto] at hno

theorem Unrepeated.append (h : Unrepeated t) (hnone : slot? false owner t e = none) :
    Unrepeated (t ++ [e]) := by
  rw [Unrepeated, List.map_append, List.nodup_append]
  refine ⟨h, by simp, fun a ha b hb => ?_⟩
  rintro rfl
  exact signature_not_mem hnone (List.mem_singleton.1 hb ▸ ha)

theorem Unrepeated.override (h : Unrepeated t) (e : VtableEntry) :
    Unrepeated (override false owner t e) := by
  unfold Vtable.override
  split
  · next i hi =>
    have hsame : t.map VtableEntry.signature = (t.set i e).map VtableEntry.signature :=
      (slotsKept_iff.1 (SlotsKept.set hi)).eq_of_length (by simp)
    rwa [Unrepeated, ← hsame]
  · next hnone => exact h.append hnone

theorem Unrepeated.supply (h : Unrepeated t) (e : VtableEntry) :
    Unrepeated (supply false owner t e) := by
  unfold Vtable.supply
  split
  · exact h
  · next hnone => exact h.append hnone

theorem Unrepeated.foldl {step : Vtable → VtableEntry → Vtable}
    (hstep : ∀ t e, Unrepeated t → Unrepeated (step t e)) (es : List VtableEntry)
    (h : Unrepeated t) : Unrepeated (es.foldl step t) := by
  induction es generalizing t with
  | nil => exact h
  | cons e es ih => exact ih (hstep t e h)

end Vtable

namespace ClassPath

open Vtable Query TableKind

variable (p : ClassPath)

/-! ## Default methods -/

/-- What may become of a slot under the default methods of interfaces. -/
def TakenByDefault (owner : Descriptor) (ifaces : List ClassDef) (old new : VtableEntry) : Prop :=
  (old.isAbstract = true ∨ p.isInterface old.origin = .ok true) ∧
    new.signature = old.signature ∧ ∃ iface ∈ ifaces, ∃ m ∈ iface.virtualMethods,
      m.access.isAbstract = false ∧ new = .implemented owner iface.descriptor m

variable {p} {owner : Descriptor} {ifaces : List ClassDef} {e : VtableEntry}

theorem TakenByDefault.trans (a b d : VtableEntry) (h : p.TakenByDefault owner ifaces a b)
    (h' : p.TakenByDefault owner ifaces b d) : p.TakenByDefault owner ifaces a d :=
  ⟨h.1, h'.2.1.trans h.2.1, h'.2.2⟩

variable (p) in
/-- The default method `e` may take the slot of `old`, going by what is answered
    with the memo. -/
def GivesWay (m : Memo) (old e : VtableEntry) : Prop :=
  old.origin ≠ e.origin ∧
    (p.isInterface old.origin = .ok true ∧
        ((p.implements old.origin e.origin).run m).1 = .ok false ∨
      p.isInterface old.origin ≠ .ok true ∧ old.isAbstract = true)

/-- What is done with a default method. -/
theorem addDefault_cases (p : ClassPath) (owner : Descriptor) (inherited : Nat) (t : Vtable)
    (e : VtableEntry) (m : Memo) :
    (slot? p.runtime.checksPackagePrivate owner t e = none ∧
      ((p.addDefault owner inherited t e).run m).1 = t ++ [e]) ∨
    ∃ i old, slot? p.runtime.checksPackagePrivate owner t e = some i ∧ t[i]? = some old ∧
      (¬ p.GivesWay m old e ∧ ((p.addDefault owner inherited t e).run m).1 = t ∨
        p.GivesWay m old e ∧ ((p.addDefault owner inherited t e).run m).1 =
          if i < inherited then t.set i e ++ [e] else t.set i e) := by
  unfold addDefault
  cases hi : slot? p.runtime.checksPackagePrivate owner t e with
  | none => exact .inl ⟨rfl, rfl⟩
  | some i =>
    obtain ⟨old, hold, -⟩ := slot?_eq_some hi
    refine .inr ⟨i, old, rfl, hold, ?_⟩
    simp only [hold]
    by_cases horigin : old.origin = e.origin
    · simp only [horigin, if_true]
      exact .inl ⟨fun h => h.1 horigin, rfl⟩
    · simp only [horigin, if_false]
      by_cases hinterface : p.isInterface old.origin = .ok true
      · simp only [hinterface, if_true, run_bind]
        generalize hanswer : (p.implements old.origin e.origin).run m = r
        have hway : p.GivesWay m old e ↔ r.1 = .ok false := by
          simp [GivesWay, horigin, hinterface, hanswer]
        rw [hway]
        split
        · next hfalse => exact .inr ⟨hfalse, rfl⟩
        · next hother => exact .inl ⟨hother, rfl⟩
      · simp only [Bool.false_eq_true, if_false]
        have hway : p.GivesWay m old e ↔ old.isAbstract = true := by
          simp [GivesWay, horigin, hinterface]
        rw [hway]
        by_cases habstract : old.isAbstract = true
        · exact .inr ⟨habstract, by rw [if_pos habstract]; rfl⟩
        · exact .inl ⟨habstract, by rw [if_neg habstract]; rfl⟩

theorem addDefault_changes (inherited : Nat) (t : Vtable)
    (he : ∃ iface ∈ ifaces, ∃ m ∈ iface.virtualMethods, m.access.isAbstract = false ∧
      e = .implemented owner iface.descriptor m) :
    Yields (Changes (p.TakenByDefault owner ifaces) t) (p.addDefault owner inherited t e) := by
  intro m
  rcases p.addDefault_cases owner inherited t e m with
    ⟨-, hrun⟩ | ⟨i, old, hi, hold, ⟨-, hrun⟩ | ⟨hway, hrun⟩⟩
  · rw [hrun]
    exact Changes.of_prefix (List.prefix_append _ _)
  · rw [hrun]
    exact Changes.refl _ t
  · obtain ⟨old', hold', hsig, -⟩ := slot?_eq_some hi
    cases hold.symm.trans hold'
    have hset : Changes (p.TakenByDefault owner ifaces) t (t.set i e) :=
      Changes.set hold ⟨(hway.2.imp And.left And.right).symm, hsig.symm, he⟩
    rw [hrun]
    split
    · exact hset.trans TakenByDefault.trans (Changes.of_prefix (List.prefix_append _ _))
    · exact hset

/-- Entries of the default methods. -/
theorem mem_defaults (he : e ∈ ifaces.flatMap (interfaceEntries owner (!·.access.isAbstract))) :
    ∃ iface ∈ ifaces, ∃ m ∈ iface.virtualMethods, m.access.isAbstract = false ∧
      e = .implemented owner iface.descriptor m := by
  obtain ⟨iface, hiface, he⟩ := List.mem_flatMap.1 he
  obtain ⟨m, hm, hpick, rfl⟩ := mem_interfaceEntries.1 he
  exact ⟨iface, hiface, m, hm, by simpa using hpick, rfl⟩

theorem withDefaults_changes (inherited : Nat) (t : Vtable) :
    Yields (Changes (p.TakenByDefault owner ifaces) t)
      (p.withDefaults owner ifaces inherited t) := by
  have hentries := fun e
    (he : e ∈ ifaces.flatMap (interfaceEntries owner (!·.access.isAbstract))) => mem_defaults he
  unfold withDefaults
  generalize ifaces.flatMap (interfaceEntries owner (!·.access.isAbstract)) = es at hentries
  induction es generalizing t with
  | nil => exact Yields.pure (Changes.refl _ t)
  | cons e es ih =>
    intro m
    rw [List.foldlM_cons, run_bind]
    refine (addDefault_changes inherited t (hentries e List.mem_cons_self) m).trans
      TakenByDefault.trans (ih _ (fun e he => ?_) _)
    exact hentries e (List.mem_cons_of_mem _ he)

/-! ## The older way of building tables -/

section Legacy

variable (hlegacy : p.runtime.vtableStrategy = .legacy)
  (hfree : p.runtime.checksPackagePrivate = false)
include hlegacy hfree

theorem vtableOver_unrepeated {t₀ : Vtable} (h : Unrepeated t₀) (c : ClassDef) :
    Yields (fun t => Unrepeated t.value) (p.vtableOver t₀ c) := by
  intro m
  cases hclass : c.isInterface with
  | true =>
    simp only [vtableOver, hclass, if_true]
    exact h
  | false =>
    rw [vtableOver_run hclass]
    simp only [tableOver, hlegacy, hfree]
    exact Unrepeated.foldl (fun _ _ h => h.supply _) _
      (Unrepeated.foldl (fun _ _ h => h.override _) _ h)

/-- No class has a repeated signature from the class above, or adds one. -/
theorem vtable_unrepeated :
    TableKind.vtable.HandsDown p (Recalling p.OnlyAbove) fun _ t => Unrepeated t.value where
  enter d m hm := hm.enter (by decide) d
  stored d t m hm := by
    have hleft := hm.leave .vtable d
    exact ⟨hleft.idle, hleft.recalls⟩
  circular _ _ := List.nodup_nil
  finished d c i hc hi := by
    have hstart : Unrepeated i.value := by
      cases hi with
      | first => exact List.nodup_nil
      | handed _ ht => exact ht
    have hask (d : Descriptor) : Preserves (Recalling p.OnlyAbove) (p.interfaces d) :=
      (interfaces_gives collects_isA d).mono fun _ _ => trivial
    refine Gives.bind (P := fun t => Unrepeated t.value) (fun m hm => ⟨?_, ?_⟩)
      fun t ht => Gives.pure ht
    · exact vtableOver_unrepeated hlegacy hfree hstart c m
    · exact (p.vtableOver_preserves hask i.value c m hm).2

end Legacy

/-! ## The table of a class -/

variable (p) in
/-- What is in the slots of the table `t` of a class over the table `t₀`, with
    respect to the table after the methods of the class itself. -/
structure Filled (c : ClassDef) (ifaces : List ClassDef) (t₀ t : Vtable) : Prop where
  /-- Inherited slots change only to methods of the class. -/
  overridden : Changes (TakenByOwn p.runtime.checksPackagePrivate c) t₀
    (withOwn p.runtime.checksPackagePrivate c t₀)
  /-- The methods of the class have slots that it declares. -/
  declared : ∀ m ∈ c.virtualMethods,
    Vtable.Declares c (withOwn p.runtime.checksPackagePrivate c t₀) m.signature
  /-- Without default methods, interfaces add what is missing. -/
  supplied : p.runtime.vtableStrategy = .legacy →
    withOwn p.runtime.checksPackagePrivate c t₀ <+: t ∧
      ∀ iface ∈ ifaces, ∀ m ∈ iface.virtualMethods, ∃ e ∈ t, e.signature = m.signature
  /-- With default methods, slots change only from abstract or interface methods
      to defaults. -/
  defaulted : p.runtime.vtableStrategy = .defaultMethods →
    Changes (p.TakenByDefault c.descriptor ifaces)
      (withOwn p.runtime.checksPackagePrivate c t₀) t
  /-- Where every slot can be taken, none is needed twice. -/
  unrepeated : p.runtime.vtableStrategy = .legacy → p.runtime.checksPackagePrivate = false →
    Unrepeated t

theorem tableOver_supplied (hlegacy : p.runtime.vtableStrategy = .legacy) (t₀ : Vtable)
    (c : ClassDef) (m : Memo) :
    let t := ((p.tableOver t₀ c ifaces).run m).1
    withOwn p.runtime.checksPackagePrivate c t₀ <+: t ∧
      ∀ iface ∈ ifaces, ∀ m ∈ iface.virtualMethods, ∃ e ∈ t, e.signature = m.signature := by
  simp only [tableOver, hlegacy]
  exact ⟨withInterfaces_grows _ _ _, fun _ hiface _ hm =>
    withInterfaces_supplies _ hiface hm rfl⟩

theorem tableOver_defaulted (hdefault : p.runtime.vtableStrategy = .defaultMethods) (t₀ : Vtable)
    (c : ClassDef) (m : Memo) :
    Changes (p.TakenByDefault c.descriptor ifaces)
      (withOwn p.runtime.checksPackagePrivate c t₀)
      ((p.tableOver t₀ c ifaces).run m).1 := by
  simp only [tableOver, hdefault, run_bind]
  exact (withDefaults_changes _ _ m).trans TakenByDefault.trans
    (Changes.of_prefix (withInterfaces_grows _ _ _))

/-- The table that is answered for a class, whatever was asked before: the class
    has taken the slots of its own methods from what it inherits, its interfaces
    have added what was missing, and default methods have displaced only abstract
    methods and those of interfaces. -/
theorem vtable_keeps_methods (p : ClassPath) (history : List Question) {d : Descriptor}
    {c : ClassDef} (hc : p.classDefinition d = .ok c) (hclass : c.isInterface = false) :
    let asked := (p.vtable d).run (p.memoAfterAsking history)
    ∃ t t₀, asked.1 = .ok t ∧ p.StartsFrom asked.2 d t₀ ∧
      p.Filled c ((p.directInterfaces d).run asked.2).1 t₀ t.value := by
  intro asked
  obtain ⟨t, t₀, i, ht, hmade⟩ := vtable_traced history hc hclass
  obtain ⟨m₁, -, hrun, -⟩ := hmade.made
  obtain rfl := definition?_descriptor (definition?_of_classDefinition hc)
  have hifaces : ((p.directInterfaces c.descriptor).run asked.2).1 =
      i.value.directDefinitions := by
    rw [directInterfaces, run_bind, interfaces_remembered hc hmade.listed]
    rfl
  refine ⟨t, t₀, ht, hmade.starts, ?_⟩
  rw [hifaces]
  refine ⟨withOwn_changes c t₀, fun m hm => withOwn_declares c t₀ hm, fun hlegacy => ?_,
    fun hdefault => ?_, fun hlegacy hfree => ?_⟩
  · rw [← hrun]
    exact tableOver_supplied hlegacy t₀ c m₁
  · rw [← hrun]
    exact tableOver_defaulted hdefault t₀ c m₁
  · have hlayout : TableKind.layout.HandsDown p (fun _ => True) fun _ _ => True :=
      ⟨fun _ _ _ => trivial, fun _ _ _ _ => trivial, fun _ _ => trivial,
        fun _ _ _ _ _ => Gives.pure trivial⟩
    have hkept := kept_after collects_isA hlayout (vtable_unrepeated hlegacy hfree) history
    have hanswer := (vtable_kept (vtable_unrepeated hlegacy hfree) c.descriptor _ hkept).1
    have howner := tableOwner_of_classDefinition hc
    obtain ⟨t', ht', hunrepeated⟩ := answers_ok (hasTables_iff.2 ⟨c, by rwa [howner]⟩) hanswer
    cases ht.symm.trans ht'
    exact hunrepeated

end ClassPath

/-! ## A poster over an abstract sheet -/

namespace Sample

/-- A class with a method, and an abstract one below it with a method that is
    left open. -/
def paper : ClassDef := named "LPaper;" (some Descriptor.object) 1 [] [getter "name"]

def sheet : ClassDef :=
  named "LSheet;" (some "LPaper;") 1025 [] [{ getter "area" with access := ⟨1025⟩ }]

/-- Interfaces with a default for each. -/
def sized : ClassDef := named "LSized;" (some Descriptor.object) 1537 [] [getter "area"]

def titled : ClassDef := named "LTitled;" (some Descriptor.object) 1537 [] [getter "name"]

def poster : ClassDef :=
  { named "LPoster;" (some "LSheet;") 1 [] [getter "print"] with
    interfaces := ["LSized;", "LTitled;"] }

/-- A class path of Android 7. -/
def posters : ClassPath :=
  { pathOf [named Descriptor.object none 1 [] [], paper, sheet, sized, titled, poster] with
    runtime := ⟨24, noArt⟩ }

end Sample

open Sample in
/-- A default takes the slot of the abstract method, with a copy at the end, and the
    other one leaves the method of the class in place. -/
theorem poster_keeps_methods :
    posters.classDefinition "LPoster;" = .ok poster ∧ poster.isInterface = false ∧
      (((posters.vtable "LPoster;").run (posters.memoAfterAsking [.vtable "LSheet;"])).1.map
        fun t => t.value.map fun e => (e.method.name, e.origin)) =
        .ok [("name", "LPaper;"), ("area", "LSized;"), ("print", "LPoster;"),
          ("area", "LSized;")] ∧
      ∃ t t₀, ((posters.vtable "LPoster;").run (posters.memoAfterAsking [.vtable "LSheet;"])).1 =
          .ok t ∧
        posters.StartsFrom
          ((posters.vtable "LPoster;").run (posters.memoAfterAsking [.vtable "LSheet;"])).2
          "LPoster;" t₀ ∧
        posters.Filled poster ((posters.directInterfaces "LPoster;").run
          ((posters.vtable "LPoster;").run (posters.memoAfterAsking [.vtable "LSheet;"])).2).1
          t₀ t.value := by
  have hc : posters.classDefinition "LPoster;" = .ok poster := by decide +kernel
  exact ⟨hc, rfl, by decide +kernel, posters.vtable_keeps_methods _ hc rfl⟩

end SymbolicDex
