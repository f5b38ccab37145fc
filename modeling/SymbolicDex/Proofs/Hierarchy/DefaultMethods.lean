import SymbolicDex.Proofs.Hierarchy.InterfaceClosure
import SymbolicDex.Proofs.Hierarchy.SlotFilling

/- Which default method a class gets. The interfaces of a class are gone through
   once, in the order in which they were met, and a newcomer is compared with the
   method that holds the slot. What matters in the end is only which interface
   extends which: where every two of those with a default are related, the slot
   goes to the one that has all the others.

   What is proved:
     1. `addDefault_elsewhere`, `addDefault_contests`: what one default method does to
        the slots of a signature.
     2. `addDefault_standing`, `foldlM_standing`: whoever holds the slot has all that
        came before.
     3. `most_specific_default_wins`: so the last holder has all the others, and
        the slot is the only one that is gained.
     4. `plain_class_keeps_default`: not so among classes that are no interfaces. -/
namespace SymbolicDex

namespace Vtable

variable {σ : String × Prototype} {t t₁ : Vtable} {e w : VtableEntry} {checked : Bool}
  {owner : Descriptor}

/-! ## Slots of one signature -/

/-- The slot holds a method of the signature. -/
def Holds (σ : String × Prototype) (t : Vtable) (i : Nat) (e : VtableEntry) : Prop :=
  t[i]? = some e ∧ e.signature = σ

/-- The slots of the signature are those of `t₁`. -/
def Unclaimed (σ : String × Prototype) (t₁ t : Vtable) : Prop :=
  ∀ i e, Holds σ t i e ↔ Holds σ t₁ i e

/-- The slots of the signature are those of `t₁` and one more, with `w`. -/
def GainsSlot (σ : String × Prototype) (t₁ t : Vtable) (w : VtableEntry) : Prop :=
  ∃ j, t₁.length ≤ j ∧ ∀ i e, Holds σ t i e ↔ Holds σ t₁ i e ∨ i = j ∧ e = w

theorem holds_append (i : Nat) (e' : VtableEntry) :
    Holds σ (t ++ [e]) i e' ↔ Holds σ t i e' ∨ e.signature = σ ∧ i = t.length ∧ e' = e := by
  unfold Holds
  rw [List.getElem?_append]
  split
  · next hi =>
    have hne : i ≠ t.length := by omega
    simp [hne]
  · next hi =>
    have hnone : t[i]? = none := List.getElem?_eq_none (by omega)
    by_cases heq : i = t.length
    · simp only [heq, Nat.sub_self, List.getElem?_cons_zero, Option.some.injEq]
      grind
    · have hpos : [e][i - t.length]? = none := List.getElem?_eq_none (by simp; omega)
      simp [hpos, hnone, heq]

theorem holds_set {k : Nat} (hk : k < t.length) (i : Nat) (e' : VtableEntry) :
    Holds σ (t.set k e) i e' ↔ i ≠ k ∧ Holds σ t i e' ∨ e.signature = σ ∧ i = k ∧ e' = e := by
  unfold Holds
  by_cases hik : i = k
  · subst hik
    rw [List.getElem?_set_self hk]
    grind
  · rw [List.getElem?_set_ne (Ne.symm hik)]
    simp [hik]

theorem Unclaimed.refl (σ : String × Prototype) (t : Vtable) : Unclaimed σ t t := fun _ _ => .rfl

theorem Unclaimed.trans {t₂ : Vtable} (h : Unclaimed σ t₁ t) (h' : Unclaimed σ t t₂) :
    Unclaimed σ t₁ t₂ := fun i e => (h' i e).trans (h i e)

theorem GainsSlot.unclaimed {t₂ : Vtable} (h : GainsSlot σ t₁ t w) (h' : Unclaimed σ t t₂) :
    GainsSlot σ t₁ t₂ w := by
  obtain ⟨j, hj, hslots⟩ := h
  exact ⟨j, hj, fun i e => (h' i e).trans (hslots i e)⟩

theorem unclaimed_append (he : e.signature ≠ σ) : Unclaimed σ t (t ++ [e]) := by
  intro i e'
  rw [holds_append]
  simp [he]

/-- Replacing a method by one of the same, other signature. -/
theorem unclaimed_set {k : Nat} {old : VtableEntry} (hold : t[k]? = some old)
    (hsame : old.signature = e.signature) (he : e.signature ≠ σ) :
    Unclaimed σ t (t.set k e) := by
  intro i e'
  rw [holds_set (List.getElem?_eq_some_iff.1 hold).1]
  constructor
  · rintro (⟨-, h⟩ | ⟨h, -⟩)
    · exact h
    · exact absurd h he
  · intro h
    refine .inl ⟨?_, h⟩
    rintro rfl
    cases hold.symm.trans h.1
    exact he (hsame.symm.trans h.2)

theorem gainsSlot_append (h : Unclaimed σ t₁ t) (hlen : t₁.length ≤ t.length)
    (he : e.signature = σ) : GainsSlot σ t₁ (t ++ [e]) e := by
  refine ⟨t.length, hlen, fun i e' => ?_⟩
  rw [holds_append, h i e']
  simp [he]

/-- The gained slot is the one that can be taken, where no other can. -/
theorem GainsSlot.slot? (h : GainsSlot σ t₁ t w)
    (hfixed : ∀ e ∈ t₁, e.signature = σ → overridable checked owner e = false)
    (hfree : overridable checked owner w = true) (he : e.signature = σ) :
    ∃ j, slot? checked owner t e = some j ∧ t[j]? = some w ∧ t₁.length ≤ j ∧
      GainsSlot σ t₁ (t.set j e) e := by
  obtain ⟨j, hj, hslots⟩ := h
  obtain ⟨hw, hsig⟩ := (hslots j w).2 (.inr ⟨rfl, rfl⟩)
  cases hfound : Vtable.slot? checked owner t e with
  | none =>
    have hno := List.findIdx?_eq_none_iff.1 hfound w (List.mem_of_getElem? hw)
    obtain ⟨hname, hproto⟩ := Prod.mk.inj (hsig.trans he.symm)
    simp [hfree, MethodRef.sameSignature, hname, hproto] at hno
  | some k =>
    obtain ⟨old, hold, hold', hfree'⟩ := slot?_eq_some hfound
    rcases (hslots k old).1 ⟨hold, hold'.trans he⟩ with ⟨hin, hsig'⟩ | ⟨rfl, rfl⟩
    · rw [hfixed old (List.mem_of_getElem? hin) hsig'] at hfree'
      cases hfree'
    · refine ⟨k, rfl, hold, hj, k, hj, fun i e' => ?_⟩
      rw [holds_set (List.getElem?_eq_some_iff.1 hold).1, hslots]
      have hbefore (h : Holds σ t₁ i e') : i ≠ k := by
        have := (List.getElem?_eq_some_iff.1 h.1).1
        omega
      grind

/-- Where no slot can be taken, none is found. -/
theorem Unclaimed.slot?_eq_none (h : Unclaimed σ t₁ t)
    (hfixed : ∀ e ∈ t₁, e.signature = σ → overridable checked owner e = false)
    (he : e.signature = σ) : Vtable.slot? checked owner t e = none := by
  cases hfound : Vtable.slot? checked owner t e with
  | none => rfl
  | some k =>
    obtain ⟨old, hold, hsig, hfree⟩ := slot?_eq_some hfound
    obtain ⟨hin, hsig'⟩ := (h k old).1 ⟨hold, hsig.trans he⟩
    rw [hfixed old (List.mem_of_getElem? hin) hsig'] at hfree
    cases hfree

/-- Methods that are only added where a slot is missing leave the gained one. -/
theorem GainsSlot.supply (h : GainsSlot σ t₁ t w)
    (hfixed : ∀ e ∈ t₁, e.signature = σ → overridable checked owner e = false)
    (hfree : overridable checked owner w = true) (e : VtableEntry) :
    GainsSlot σ t₁ (supply checked owner t e) w := by
  by_cases he : e.signature = σ
  · obtain ⟨j, hj, -⟩ := h.slot? hfixed hfree he
    simpa only [Vtable.supply, hj] using h
  · unfold Vtable.supply
    split
    · exact h
    · exact h.unclaimed (unclaimed_append he)

theorem GainsSlot.withInterfaces (h : GainsSlot σ t₁ t w)
    (hfixed : ∀ e ∈ t₁, e.signature = σ → overridable checked owner e = false)
    (hfree : overridable checked owner w = true) (pick : MethodDef → Bool)
    (ifaces : List ClassDef) :
    GainsSlot σ t₁ (withInterfaces checked owner pick ifaces t) w := by
  unfold Vtable.withInterfaces
  induction ifaces.flatMap (interfaceEntries owner pick) generalizing t with
  | nil => exact h
  | cons e es ih => exact ih (h.supply hfixed hfree e)

/-- A method named through the class can be taken by it. -/
theorem overridable_implemented (owner iface : Descriptor) (m : MethodDef) :
    overridable checked owner (.implemented owner iface m) = true := by
  simp [overridable, VtableEntry.implemented, MethodDef.ref, Descriptor.samePackage]

end Vtable

namespace ClassPath

open Vtable Query

variable (p : ClassPath)

/-! ## Interfaces in order -/

/-- Of any two among the interfaces it is known whether one has the other, and one
    does; and those that another one has are interfaces indeed. -/
structure Ranked (m : Memo) (among : Descriptor → Prop) : Prop where
  answered : ∀ a b, among a → among b → a ≠ b → ∃ r, ((p.implements a b).run m).1 = .ok r
  related : ∀ a b, among a → among b → a ≠ b →
    ((p.implements a b).run m).1 = .ok true ∨ ((p.implements b a).run m).1 = .ok true
  interfaces : ∀ a b, among a → among b → a ≠ b → ((p.implements b a).run m).1 = .ok true →
    p.isInterface a = .ok true

/-- An entry of a default method of one of the interfaces. -/
structure Candidate (owner : Descriptor) (among : Descriptor → Prop) (σ : String × Prototype)
    (e : VtableEntry) : Prop where
  owned : e.method.owner = owner
  concrete : e.isAbstract = false
  among : e.signature = σ → among e.origin

/-- After the methods in `done`, the slot is not claimed yet, or it is held by the
    method of an interface that has those of all the others. -/
def Standing (m : Memo) (σ : String × Prototype) (t₁ : Vtable) (done : List VtableEntry)
    (t : Vtable) : Prop :=
  t₁.length ≤ t.length ∧
    ((∀ x ∈ done, x.signature ≠ σ) ∧ Unclaimed σ t₁ t ∨
      ∃ w ∈ done, w.signature = σ ∧ GainsSlot σ t₁ t w ∧
        ∀ x ∈ done, x.signature = σ → x.origin ≠ w.origin →
          ((p.implements w.origin x.origin).run m).1 = .ok true)

variable {p} {m m₁ : Memo} {owner : Descriptor} {among : Descriptor → Prop}
  {σ : String × Prototype} {t₁ t : Vtable} {done : List VtableEntry} {e : VtableEntry}
  {inherited : Nat}

/-- A method of another signature. -/
theorem addDefault_elsewhere (p : ClassPath) (owner : Descriptor) (inherited : Nat) (t : Vtable)
    (he : e.signature ≠ σ) (m : Memo) :
    Unclaimed σ t ((p.addDefault owner inherited t e).run m).1 := by
  rcases p.addDefault_cases owner inherited t e m with
    ⟨-, hrun⟩ | ⟨i, old, hi, hold, ⟨-, hrun⟩ | ⟨-, hrun⟩⟩
  · rw [hrun]
    exact unclaimed_append he
  · rw [hrun]
    exact Unclaimed.refl σ t
  · obtain ⟨old', hold', hsame, -⟩ := slot?_eq_some hi
    cases hold.symm.trans hold'
    have hset := unclaimed_set hold hsame he
    rw [hrun]
    split
    · exact hset.trans (unclaimed_append he)
    · exact hset

/-- The answer that decides about a slot is remembered. -/
theorem addDefault_asks {i : Nat} {old : VtableEntry} (hidle : m₁.busyWith .interfaces = [])
    (hi : slot? p.runtime.checksPackagePrivate owner t e = some i) (hold : t[i]? = some old)
    (horigin : old.origin ≠ e.origin) (hinterface : p.isInterface old.origin = .ok true)
    (hin : ((p.addDefault owner inherited t e).run m₁).2.InterfacesIn m) :
    (∃ ti, p.Known m old.origin ti) ∧
      ((p.implements old.origin e.origin).run m₁).1 =
        ((p.implements old.origin e.origin).run m).1 := by
  have hmemo : ((p.addDefault owner inherited t e).run m₁).2 =
      ((p.interfaces old.origin).run m₁).2 := by
    have hasked : ((p.implements old.origin e.origin).run m₁).2 =
        ((p.interfaces old.origin).run m₁).2 := by
      rw [implements, run_bind]
      split <;> rfl
    unfold addDefault
    simp only [hi, hold, horigin, if_false, hinterface, if_true, run_bind]
    rw [← hasked]
    split <;> rfl
  have hknown := (interfaces_known hidle old.origin).mono (hmemo ▸ hin)
  refine ⟨⟨_, hknown⟩, ?_⟩
  rw [implements_run, implements_run, hknown.run]

section Pass

variable (hm : p.Tended m) (hranked : p.Ranked m among) (hlen : inherited ≤ t₁.length)
  (hfixed : ∀ e ∈ t₁, e.signature = σ →
    overridable p.runtime.checksPackagePrivate owner e = false)
include hm hranked

/-- A newcomer that the holder of the slot does not have has the holder, and with
    it all that the holder has. -/
theorem Ranked.newcomer {w : VtableEntry} (hw : among w.origin) (he : among e.origin)
    (hknown : ∃ ti, p.Known m w.origin ti) (hwe : w.origin ≠ e.origin)
    (hanswer : ((p.implements w.origin e.origin).run m).1 = .ok false)
    (hdone : ∀ x ∈ done, x.signature = σ → among x.origin)
    (hothers : ∀ x ∈ done, x.signature = σ → x.origin ≠ w.origin →
      ((p.implements w.origin x.origin).run m).1 = .ok true) :
    ∀ x ∈ done, x.signature = σ → x.origin ≠ e.origin →
      ((p.implements e.origin x.origin).run m).1 = .ok true := by
  intro x hx hsig hne
  have hew : ((p.implements e.origin w.origin).run m).1 = .ok true := by
    refine (hranked.related _ _ he hw hwe.symm).resolve_right fun h => ?_
    rw [hanswer] at h
    cases h
  by_cases hxw : x.origin = w.origin
  · rwa [hxw]
  · have hwx := hothers x hx hsig hxw
    have hamong := hdone x hx hsig
    obtain ⟨r, hr⟩ := hranked.answered _ _ he hamong hne.symm
    cases r with
    | true => exact hr
    | false =>
      have hxe : ((p.implements x.origin e.origin).run m).1 = .ok true := by
        refine (hranked.related _ _ hamong he hne).resolve_right fun h => ?_
        rw [hr] at h
        cases h
      obtain ⟨ti, hti⟩ := hknown
      exact absurd hr (implements_across hm hti hwx hanswer hxe hew)

include hlen hfixed

omit hm in
/-- A newcomer for a slot that is held takes it if the holder does not have its
    interface. -/
theorem addDefault_contests {w : VtableEntry} (hidle : m₁.busyWith .interfaces = [])
    (hin : ((p.addDefault owner inherited t e).run m₁).2.InterfacesIn m)
    (hw : Candidate owner among σ w) (he : Candidate owner among σ e) (hwσ : w.signature = σ)
    (heσ : e.signature = σ) (hgains : GainsSlot σ t₁ t w) :
    (w.origin = e.origin ∨ ((p.implements w.origin e.origin).run m).1 = .ok true) ∧
        ((p.addDefault owner inherited t e).run m₁).1 = t ∨
      w.origin ≠ e.origin ∧ ((p.implements w.origin e.origin).run m).1 = .ok false ∧
        (∃ ti, p.Known m w.origin ti) ∧
        GainsSlot σ t₁ ((p.addDefault owner inherited t e).run m₁).1 e := by
  have hfree : overridable p.runtime.checksPackagePrivate owner w = true := by
    simp [overridable, hw.owned, Descriptor.samePackage]
  obtain ⟨j, hj, htj, hjlen, hset⟩ := hgains.slot? hfixed hfree heσ
  rcases p.addDefault_cases owner inherited t e m₁ with
    ⟨hnone, -⟩ | ⟨i, old, hi, hold, hrest⟩
  · rw [hj] at hnone
    cases hnone
  cases hj.symm.trans hi
  cases htj.symm.trans hold
  by_cases horigin : w.origin = e.origin
  · refine .inl ⟨.inl horigin, ?_⟩
    rcases hrest with ⟨-, hrun⟩ | ⟨hway, -⟩
    · exact hrun
    · exact absurd horigin hway.1
  have hamong := hw.among hwσ
  obtain ⟨r, hr⟩ := hranked.answered _ _ hamong (he.among heσ) horigin
  cases r with
  | true =>
    refine .inl ⟨.inr hr, ?_⟩
    rcases hrest with ⟨-, hrun⟩ | ⟨hway, -⟩
    · exact hrun
    -- the holder could give way only to an interface that it does not have
    · rcases hway.2 with ⟨hinterface, hanswer⟩ | ⟨-, habstract⟩
      · have hsame := (addDefault_asks hidle hi htj horigin hinterface hin).2
        rw [hanswer, hr] at hsame
        cases hsame
      · rw [hw.concrete] at habstract
        cases habstract
  | false =>
    have hinterface : p.isInterface w.origin = .ok true := by
      refine hranked.interfaces _ _ hamong (he.among heσ) horigin ?_
      refine (hranked.related _ _ hamong (he.among heσ) horigin).resolve_left fun h => ?_
      rw [hr] at h
      cases h
    obtain ⟨hknown, hsame⟩ := addDefault_asks hidle hi htj horigin hinterface hin
    refine .inr ⟨horigin, hr, hknown, ?_⟩
    rcases hrest with ⟨hstay, -⟩ | ⟨-, hrun⟩
    · exact absurd ⟨horigin, .inl ⟨hinterface, hsame.trans hr⟩⟩ hstay
    · rw [hrun, if_neg (by omega)]
      exact hset

theorem addDefault_standing (hidle : m₁.busyWith .interfaces = [])
    (hin : ((p.addDefault owner inherited t e).run m₁).2.InterfacesIn m)
    (hdone : ∀ x ∈ done, Candidate owner among σ x) (he : Candidate owner among σ e)
    (h : p.Standing m σ t₁ done t) :
    p.Standing m σ t₁ (done ++ [e]) ((p.addDefault owner inherited t e).run m₁).1 := by
  obtain ⟨hle, h⟩ := h
  refine ⟨Nat.le_trans hle (p.addDefault_kept owner inherited t e m₁).length_le, ?_⟩
  simp only [List.mem_append, List.mem_singleton, or_imp, forall_and, forall_eq]
  by_cases heσ : e.signature = σ
  · right
    rcases h with ⟨hnone, hunclaimed⟩ | ⟨w, hw, hwσ, hgains, hothers⟩
    · refine ⟨e, .inr rfl, heσ, ?_, fun x hx hsig => absurd hsig (hnone x hx),
        fun _ hne => absurd rfl hne⟩
      have hslot := hunclaimed.slot?_eq_none hfixed heσ
      rcases p.addDefault_cases owner inherited t e m₁ with
        ⟨-, hrun⟩ | ⟨i, _, hi, -⟩
      · rw [hrun]
        exact gainsSlot_append hunclaimed hle heσ
      · rw [hslot] at hi
        cases hi
    · rcases addDefault_contests hranked hlen hfixed hidle hin (hdone w hw) he hwσ heσ hgains
        with ⟨hhas, hrun⟩ | ⟨horigin, hanswer, hknown, hgains'⟩
      · rw [hrun]
        exact ⟨w, .inl hw, hwσ, hgains, hothers, fun _ hne => hhas.resolve_left (Ne.symm hne)⟩
      · refine ⟨e, .inr rfl, heσ, hgains', ?_, fun _ hne => absurd rfl hne⟩
        exact Ranked.newcomer hm hranked ((hdone w hw).among hwσ) (he.among heσ) hknown horigin
          hanswer (fun x hx => (hdone x hx).among) hothers
  · have hunclaimed := p.addDefault_elsewhere owner inherited t heσ m₁
    rcases h with ⟨hnone, h⟩ | ⟨w, hw, hwσ, hgains, hothers⟩
    · exact .inl ⟨⟨hnone, heσ⟩, h.trans hunclaimed⟩
    · exact .inr ⟨w, .inl hw, hwσ, hgains.unclaimed hunclaimed, hothers,
        fun h => absurd h heσ⟩

/-- The whole pass: whoever holds the slot has all that came before. -/
theorem foldlM_standing {es : List VtableEntry} (hidle : m₁.busyWith .interfaces = [])
    (hin : ((es.foldlM (p.addDefault owner inherited) t).run m₁).2.InterfacesIn m)
    (hdone : ∀ x ∈ done, Candidate owner among σ x) (hes : ∀ x ∈ es, Candidate owner among σ x)
    (h : p.Standing m σ t₁ done t) :
    p.Standing m σ t₁ (done ++ es)
      ((es.foldlM (p.addDefault owner inherited) t).run m₁).1 := by
  induction es generalizing done t m₁ with
  | nil =>
    rw [List.append_nil]
    exact h
  | cons e es ih =>
    rw [List.foldlM_cons, run_bind] at hin ⊢
    rw [List.forall_mem_cons] at hes
    have hgrows := p.addDefault_grows owner inherited t e m₁
    have hrest := Grows.foldlM (p.addDefault_grows owner inherited) es
      ((p.addDefault owner inherited t e).run m₁).1 ((p.addDefault owner inherited t e).run m₁).2
    have hfirst := addDefault_standing hm hranked hlen hfixed hidle
      (fun d t ht => hin d t (hrest.interfaces d t ht)) hdone hes.1 h
    rw [List.append_cons]
    refine ih ((hgrows.busyWith _).trans hidle) hin (fun x hx => ?_) hes.2 hfirst
    rcases List.mem_append.1 hx with hx | hx
    · exact hdone x hx
    · exact List.mem_singleton.1 hx ▸ hes.1

end Pass

/-! ## The table of a class -/

/-- The name of one of the interfaces that have a default method of the
    signature. -/
def Defaulting (ifaces : List ClassDef) (σ : String × Prototype) (a : Descriptor) : Prop :=
  ∃ iface ∈ ifaces, iface.descriptor = a ∧
    ∃ m ∈ iface.virtualMethods, m.access.isAbstract = false ∧ m.signature = σ

theorem candidate_of_mem {ifaces : List ClassDef}
    (he : e ∈ ifaces.flatMap (interfaceEntries owner (!·.access.isAbstract))) :
    Candidate owner (Defaulting ifaces σ) σ e := by
  obtain ⟨iface, hiface, m, hm, hconcrete, rfl⟩ := mem_defaults he
  exact ⟨rfl, hconcrete, fun hsig => ⟨iface, hiface, rfl, m, hm, hconcrete, hsig⟩⟩

/-- Among interfaces every two of which are related, the one that has all the others
    gets the slot of a default method, and no other slot is gained. This is so for
    every class path, in whatever order the interfaces are declared, and after every
    history. -/
theorem most_specific_default_wins (p : ClassPath) (history : List Question) {d : Descriptor}
    {c : ClassDef} (hc : p.classDefinition d = .ok c) (hclass : c.isInterface = false)
    (hdefault : p.runtime.vtableStrategy = .defaultMethods) (σ : String × Prototype) :
    let asked := (p.vtable d).run (p.memoAfterAsking history)
    let checked := p.runtime.checksPackagePrivate
    let ifaces := ((p.directInterfaces d).run asked.2).1
    ∃ t t₀, asked.1 = .ok t ∧ p.StartsFrom asked.2 d t₀ ∧
      ((∀ e ∈ withOwn checked c t₀, e.signature = σ → overridable checked d e = false) →
        (∃ a, Defaulting ifaces σ a) → p.Ranked asked.2 (Defaulting ifaces σ) →
        ∃ iface ∈ ifaces, ∃ m ∈ iface.virtualMethods,
          m.access.isAbstract = false ∧ m.signature = σ ∧
          GainsSlot σ (withOwn checked c t₀) t.value (.implemented d iface.descriptor m) ∧
          ∀ a, Defaulting ifaces σ a → a ≠ iface.descriptor →
            ((p.implements iface.descriptor a).run asked.2).1 = .ok true) := by
  intro asked checked ifaces
  obtain ⟨t, t₀, i, ht, hmade⟩ := vtable_traced history hc hclass
  obtain ⟨m₁, hidle, hrun, hin⟩ := hmade.made
  have htended : p.Tended asked.2 := (vtable_tended d _ (p.tended_after history)).2
  obtain rfl := definition?_descriptor (definition?_of_classDefinition hc)
  have hifaces : ifaces = i.value.directDefinitions := by
    simp only [ifaces, directInterfaces]
    rw [run_bind, interfaces_remembered hc hmade.listed]
    rfl
  rw [← hifaces] at hrun hin
  simp only [tableOver, hdefault, run_bind] at hrun hin
  refine ⟨t, t₀, ht, hmade.starts, ?_⟩
  rintro hfixed ⟨a, ha⟩ hranked
  -- what the pass leaves, before abstract methods are added
  have hfirst : p.Standing asked.2 σ (withOwn checked c t₀) [] (withOwn checked c t₀) :=
    ⟨Nat.le_refl _, .inl ⟨by simp, Unclaimed.refl σ _⟩⟩
  have hstanding := foldlM_standing htended hranked (withOwn_changes c t₀).length_le hfixed hidle
    hin (by simp) (fun e => candidate_of_mem) hfirst
  rw [List.nil_append] at hstanding
  have hentry (a : Descriptor) (ha : Defaulting ifaces σ a) :
      ∃ x ∈ ifaces.flatMap (interfaceEntries c.descriptor (!·.access.isAbstract)),
        x.signature = σ ∧ x.origin = a := by
    obtain ⟨iface, hiface, rfl, m, hm, hconcrete, hsig⟩ := ha
    refine ⟨.implemented c.descriptor iface.descriptor m, List.mem_flatMap.2 ⟨iface, hiface, ?_⟩,
      hsig, rfl⟩
    exact mem_interfaceEntries.2 ⟨m, hm, by simp [hconcrete], rfl⟩
  rcases hstanding.2 with ⟨hnone, -⟩ | ⟨w, hw, hwσ, hgains, hothers⟩
  · obtain ⟨x, hx, hsig, -⟩ := hentry a ha
    exact absurd hsig (hnone x hx)
  · obtain ⟨iface, hiface, m, hm, hconcrete, rfl⟩ := mem_defaults hw
    refine ⟨iface, hiface, m, hm, hconcrete, hwσ, ?_, fun a ha hne => ?_⟩
    · rw [← hrun]
      exact hgains.withInterfaces hfixed (overridable_implemented _ _ _) _ _
    · obtain ⟨x, hx, hsig, rfl⟩ := hentry a ha
      exact hothers x hx hsig hne

end ClassPath

/-! ## A lamp that fits several sockets -/

namespace Sample

/-- An interface that extends others and has a default method. -/
def socket (name : Descriptor) (access : Nat) (extended : List Descriptor) : ClassDef :=
  { named name (some Descriptor.object) access [] [getter "fit"] with interfaces := extended }

def lamp (declared : List Descriptor) : ClassDef :=
  { named "LLamp;" (some Descriptor.object) 1 [] [] with interfaces := declared }

/-- A class path of Android 7. -/
def fittings (classes : List ClassDef) : ClassPath :=
  { pathOf (named Descriptor.object none 1 [] [] :: classes) with runtime := ⟨24, noArt⟩ }

/-- Three sockets, the widest declared first and the narrowest second. -/
def lamps : ClassPath :=
  fittings [socket "LSocket;" 1537 [], socket "LScrew;" 1537 ["LSocket;"],
    socket "LSmall;" 1537 ["LScrew;"], lamp ["LSocket;", "LSmall;", "LScrew;"]]

/-- The answer for the lamp, and the memo then. -/
def lit (p : ClassPath) : Except MissingClass (Computed Vtable) × Memo :=
  (p.vtable "LLamp;").run (p.memoAfterAsking [.vtable "LLamp;"])

/-- The sockets that the lamp has. -/
def sockets (p : ClassPath) : List ClassDef := ((p.directInterfaces "LLamp;").run (lit p).2).1

def fit : String × Prototype := (getter "fit").signature

end Sample

open Sample ClassPath in
/-- Of three sockets the narrowest one has the others, and the lamp fits it. -/
theorem lamp_fits_small_socket :
    (∃ c, lamps.classDefinition "LLamp;" = .ok c ∧ c.isInterface = false) ∧
      lamps.runtime.vtableStrategy = .defaultMethods ∧
      lamps.Ranked (lit lamps).2 (Defaulting (sockets lamps) fit) ∧
      ∃ t, (lit lamps).1 = .ok t ∧ ∃ iface ∈ sockets lamps, ∃ m ∈ iface.virtualMethods,
        iface.descriptor = "LSmall;" ∧
          Vtable.GainsSlot fit [] t.value (.implemented "LLamp;" iface.descriptor m) := by
  have hc : lamps.classDefinition "LLamp;" = .ok (lamp ["LSocket;", "LSmall;", "LScrew;"]) := by
    decide +kernel
  have hnames (a : Descriptor) (ha : Defaulting (sockets lamps) fit a) :
      a ∈ ["LSocket;", "LSmall;", "LScrew;"] := by
    have hmap : (sockets lamps).map ClassDef.descriptor = ["LSocket;", "LSmall;", "LScrew;"] := by
      decide +kernel
    obtain ⟨iface, hiface, rfl, -⟩ := ha
    exact hmap ▸ List.mem_map_of_mem hiface
  have hanswers : ∀ a ∈ ["LSocket;", "LSmall;", "LScrew;"],
      ∀ b ∈ ["LSocket;", "LSmall;", "LScrew;"], a ≠ b →
        lamps.isInterface a = .ok true ∧
        (((lamps.implements a b).run (lit lamps).2).1 = .ok true ∨
          ((lamps.implements a b).run (lit lamps).2).1 = .ok false ∧
            ((lamps.implements b a).run (lit lamps).2).1 = .ok true) := by
    decide +kernel
  have hranked : lamps.Ranked (lit lamps).2 (Defaulting (sockets lamps) fit) := by
    refine ⟨fun a b ha hb hab => ?_, fun a b ha hb hab => ?_, fun a b ha hb hab _ => ?_⟩
    · rcases (hanswers a (hnames a ha) b (hnames b hb) hab).2 with h | ⟨h, -⟩ <;> exact ⟨_, h⟩
    · exact (hanswers a (hnames a ha) b (hnames b hb) hab).2.imp_right And.right
    · exact (hanswers a (hnames a ha) b (hnames b hb) hab).1
  have hsmall : Defaulting (sockets lamps) fit "LSmall;" :=
    ⟨socket "LSmall;" 1537 ["LScrew;"], by decide +kernel, rfl, getter "fit", by decide +kernel,
      rfl, rfl⟩
  obtain ⟨t, t₀, ht, hstarts, hwins⟩ :=
    lamps.most_specific_default_wins [.vtable "LLamp;"] hc rfl (by decide +kernel) fit
  -- the lamp has nothing from Object, and no methods of its own
  have hempty : t₀ = [] := by
    have habove : lamps.above? true "LLamp;" = some Descriptor.object := by decide +kernel
    have hfound : (((lit lamps).2.vtables.lookup Descriptor.object).map (·.value)) = some [] := by
      decide +kernel
    rw [StartsFrom, habove] at hstarts
    rcases hstarts with ⟨t', ht', rfl⟩ | ⟨-, h⟩
    · rw [show (lit lamps).2.vtables.lookup Descriptor.object = some t' from ht'] at hfound
      exact Option.some.inj hfound
    · exact h
  have hown : Vtable.withOwn lamps.runtime.checksPackagePrivate
      (lamp ["LSocket;", "LSmall;", "LScrew;"]) t₀ = [] := by
    subst hempty
    decide +kernel
  obtain ⟨iface, hiface, m, hm, hconcrete, hsig, hgains, hothers⟩ := hwins
    (by rw [hown]; simp) ⟨_, hsmall⟩ hranked
  rw [hown] at hgains
  have hwinner : iface.descriptor = "LSmall;" := by
    by_contra hne
    have hhas := hothers "LSmall;" hsmall (Ne.symm hne)
    have hnot : ∀ a ∈ ["LSocket;", "LSmall;", "LScrew;"], a ≠ "LSmall;" →
        ((lamps.implements a "LSmall;").run (lit lamps).2).1 ≠ .ok true := by decide +kernel
    exact hnot _ (hnames _ ⟨iface, hiface, rfl, m, hm, hconcrete, hsig⟩) hne hhas
  exact ⟨⟨_, hc, rfl⟩, by decide +kernel, hranked, t, ht, iface, hiface, m, hm, hwinner, hgains⟩

namespace Sample

/-- A socket that is a plain class, and one that extends it as an interface. -/
def misfits : ClassPath :=
  fittings [socket "LSocket;" 1 [], socket "LScrew;" 1537 ["LSocket;"],
    lamp ["LSocket;", "LScrew;"]]

end Sample

open Sample ClassPath in
/-- Both sockets have a default, every pair of them is answered for, and the second
    has the first. Yet the slot stays with the first, which is no interface: what a
    class declares is not displaced. -/
theorem plain_class_keeps_default :
    misfits.classDefinition "LLamp;" = .ok (lamp ["LSocket;", "LScrew;"]) ∧
      misfits.runtime.vtableStrategy = .defaultMethods ∧
      misfits.StartsFrom (lit misfits).2 "LLamp;" [] ∧
      Vtable.withOwn misfits.runtime.checksPackagePrivate (lamp ["LSocket;", "LScrew;"]) [] = [] ∧
      (sockets misfits).map (fun i => (i.descriptor, i.virtualMethods)) =
        [("LSocket;", [getter "fit"]), ("LScrew;", [getter "fit"])] ∧
      ((misfits.implements "LSocket;" "LScrew;").run (lit misfits).2).1 = .ok false ∧
      ((misfits.implements "LScrew;" "LSocket;").run (lit misfits).2).1 = .ok true ∧
      (lit misfits).1.map (·.value) =
        .ok [.implemented "LLamp;" "LSocket;" (getter "fit")] := by
  refine ⟨by decide +kernel, by decide +kernel, ?_, by decide +kernel, by decide +kernel,
    by decide +kernel, by decide +kernel, by decide +kernel⟩
  have habove : misfits.above? true "LLamp;" = some Descriptor.object := by decide +kernel
  rw [StartsFrom, habove]
  exact .inl ⟨⟨[], true⟩, by decide +kernel, rfl⟩

end SymbolicDex
