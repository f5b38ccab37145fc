import SymbolicDex.Proofs.Hierarchy.FieldOrder
import SymbolicDex.Proofs.Hierarchy.SlotStability
import SymbolicDex.Proofs.Hierarchy.Termination

/- The tables of a class do not show in which order the classes of its hierarchy declare
   their members, nor which static fields and direct methods they have. Two class paths
   are asked the same questions side by side. They do not remember the same, since the
   interfaces of a class are remembered with their definitions; but what a table can
   come to show of a definition is the same (`ClassDef.outline`), so their answers stay
   together (`Query.Twin`). Nothing is assumed of the hierarchy: it may be circular or
   have holes.

   What is proved:
     1. `ClassDef.sortedVirtualMethods_perm`: methods with distinct signatures are sorted
        in one way; so a rearranged class has the same outline.
     2. `Twin.bind`, `Twin.foldlM`, `Twin.once`: questions put together from twins are
        twins.
     3. `Grounded.twin`: if one level of a table is a twin, the whole table is; so with
        `interfaces_twin`, `layout_twin`, `vtable_twin`.
     4. `tables_ignore_declaration_order`: rearranged class paths give the same layouts
        and virtual methods, after any history. -/
namespace SymbolicDex

/-! ## Rearranged classes -/

/-- The methods differ in name or prototype. -/
def MethodDef.Distinct (a b : MethodDef) : Prop :=
  ¬ (a.name = b.name ∧ a.prototype = b.prototype)

instance MethodDef.instSymmDistinct : Std.Symm MethodDef.Distinct :=
  ⟨fun _ _ h h' => h ⟨h'.1.symm, h'.2.symm⟩⟩

namespace ClassDef

/-- The same class, with its instance fields and its virtual methods in any order, and
    with any static fields and direct methods. -/
structure Rearranged (c c' : ClassDef) : Prop where
  descriptor : c.descriptor = c'.descriptor
  access : c.access = c'.access
  superclass : c.superclass = c'.superclass
  interfaces : c.interfaces = c'.interfaces
  fields : c.instanceFields.Perm c'.instanceFields
  methods : c.virtualMethods.Perm c'.virtualMethods

/-- No two virtual methods have the same name and prototype. -/
def DistinctMethods (c : ClassDef) : Prop :=
  c.virtualMethods.Pairwise MethodDef.Distinct

/-- What a table can show of a class, its own fields apart. -/
def outline (c : ClassDef) : ClassDef :=
  { descriptor := c.descriptor, access := c.access, superclass := c.superclass
    interfaces := c.interfaces, methods := c.sortedVirtualMethods }

variable {c c' : ClassDef}

/-- Methods with distinct signatures are sorted in one way. -/
theorem sortedVirtualMethods_perm (hdistinct : c.DistinctMethods)
    (h : c.virtualMethods.Perm c'.virtualMethods) :
    c.sortedVirtualMethods = c'.sortedVirtualMethods := by
  refine mergeSort_eq_of_perm h ?_
  intro a ha b hb htied
  by_contra hne
  exact hdistinct.forall ha hb hne (MethodDef.signature_of_compare htied)

/-- A rearranged class of which the tables show the same. -/
structure Alike (c c' : ClassDef) : Prop extends Rearranged c c' where
  sortedMethods : c.sortedVirtualMethods = c'.sortedVirtualMethods

theorem Rearranged.alike (h : c.Rearranged c') (hdistinct : c.DistinctMethods) : c.Alike c' :=
  ⟨h, sortedVirtualMethods_perm hdistinct h.methods⟩

theorem Alike.outline_eq (h : c.Alike c') : c.outline = c'.outline := by
  simp only [outline, h.descriptor, h.access, h.superclass, h.interfaces, h.sortedMethods]

theorem Alike.isInterface (h : c.Alike c') : c.isInterface = c'.isInterface := by
  rw [ClassDef.isInterface, ClassDef.isInterface, h.access]

end ClassDef

/-! ## What memos show -/

def InterfaceEntry.outline : InterfaceEntry → InterfaceEntry
  | direct c => direct c.outline
  | inherited => inherited
  | unresolved => unresolved

theorem InterfaceEntry.outline_throughSuperclass (e : InterfaceEntry) :
    e.throughSuperclass.outline = e.outline.throughSuperclass := by
  cases e <;> rfl

/-- The entries as memos show them. -/
def outlines (es : List (Descriptor × InterfaceEntry)) : List (Descriptor × InterfaceEntry) :=
  es.map fun e => (e.1, e.2.outline)

namespace InterfaceMap

def outline (m : InterfaceMap) : InterfaceMap := ⟨outlines m.entries⟩

theorem get?_outline (m : InterfaceMap) (d : Descriptor) :
    m.outline.get? d = (m.get? d).map InterfaceEntry.outline := by
  simp only [get?, outline, outlines, List.find?_map, Option.map_map]
  rfl

theorem contains_outline (m : InterfaceMap) (d : Descriptor) :
    m.outline.contains d = m.contains d := by
  simp only [contains, get?_outline, Option.isSome_map]

theorem outline_insert (m : InterfaceMap) (d : Descriptor) (e : InterfaceEntry) :
    (m.insert d e).outline = m.outline.insert d e.outline := by
  unfold insert
  rw [contains_outline]
  split
  · rfl
  · simp only [outline, outlines, List.map_append, List.map_cons, List.map_nil]

theorem outline_insertAll (m : InterfaceMap) (es : List (Descriptor × InterfaceEntry)) :
    (m.insertAll es).outline = m.outline.insertAll (outlines es) := by
  unfold insertAll
  induction es generalizing m with
  | nil => rfl
  | cons e es ih =>
    rw [List.foldl_cons, ih, outline_insert]
    rfl

theorem directDefinitions_outline (m : InterfaceMap) :
    m.outline.directDefinitions = m.directDefinitions.map ClassDef.outline := by
  simp only [directDefinitions, outline, outlines, List.filterMap_map, List.map_filterMap]
  congr 1
  funext ⟨d, e⟩
  cases e <;> rfl

end InterfaceMap

/-- The entries of interfaces come from their outlines. -/
theorem Vtable.flatMap_interfaceEntries (owner : Descriptor) (pick : MethodDef → Bool)
    {ifaces ifaces' : List ClassDef}
    (hi : ifaces.map ClassDef.outline = ifaces'.map ClassDef.outline) :
    ifaces.flatMap (interfaceEntries owner pick) =
      ifaces'.flatMap (interfaceEntries owner pick) := by
  let entries (c : ClassDef) : List VtableEntry :=
    (c.methods.filter pick).map (VtableEntry.implemented owner c.descriptor)
  have heq (l : List ClassDef) :
      l.flatMap (interfaceEntries owner pick) =
        (l.map ClassDef.outline).flatMap entries := by
    rw [List.flatMap_map]
    rfl
  rw [heq, heq, hi]

def Computed.outline (t : Computed InterfaceMap) : Computed InterfaceMap :=
  ⟨t.value.outline, t.complete⟩

theorem Computed.outline_eq_iff {t t' : Computed InterfaceMap} :
    t.outline = t'.outline ↔ t.value.outline = t'.value.outline ∧ t.complete = t'.complete := by
  simp only [outline, Computed.mk.injEq]

/-- What a memo can show in the tables made from it. -/
def Memo.outline (m : Memo) : Memo :=
  { m with interfaces := m.interfaces.map fun e => (e.1, e.2.outline) }

theorem lookup_map_snd {α β : Type} (f : α → β) (es : List (Descriptor × α)) (d : Descriptor) :
    (es.map fun e => (e.1, f e.2)).lookup d = (es.lookup d).map f := by
  induction es with
  | nil => rfl
  | cons e es ih =>
    obtain ⟨d', a⟩ := e
    simp only [List.map_cons, List.lookup_cons, ih]
    cases d == d' <;> rfl

/-! ## Questions with the same answers -/

namespace Query

variable {α β γ δ : Type} {view : α → γ} {view' : β → δ} {q q' r r' : Query α}

/-- Asked of memos that show the same, the two questions get answers that show the same,
    and leave memos that do. -/
def Twin (view : α → γ) (q q' : Query α) : Prop :=
  ∀ m m' : Memo, m.outline = m'.outline →
    view (q.run m).1 = view (q'.run m').1 ∧ (q.run m).2.outline = (q'.run m').2.outline

theorem Twin.pure {a a' : α} (h : view a = view a') :
    Twin view (Pure.pure a : Query α) (Pure.pure a') :=
  fun _ _ hm => ⟨h, hm⟩

theorem Twin.bind {f f' : α → Query β} (hq : Twin view q q')
    (hf : ∀ a a', view a = view a' → Twin view' (f a) (f' a')) :
    Twin view' (q >>= f) (q' >>= f') := by
  intro m m' hm
  obtain ⟨ha, hm⟩ := hq m m' hm
  rw [run_bind, run_bind]
  exact hf _ _ ha _ _ hm

/-- Where the whole answer shows, both questions go on from the same. -/
theorem Twin.bind_same {f f' : α → Query β} (hq : Twin id q q')
    (hf : ∀ a, Twin view' (f a) (f' a)) : Twin view' (q >>= f) (q' >>= f') := by
  refine Twin.bind hq fun a a' ha => ?_
  obtain rfl : a = a' := ha
  exact hf a

theorem Twin.ite {c c' : Prop} [Decidable c] [Decidable c'] (hc : c ↔ c')
    (hq : Twin view q q') (hr : Twin view r r') :
    Twin view (if c then q else r) (if c' then q' else r') := by
  by_cases h : c
  · rw [if_pos h, if_pos (hc.1 h)]
    exact hq
  · rw [if_neg h, if_neg fun h' => h (hc.2 h')]
    exact hr

theorem Twin.foldlM {f f' : α → β → Query α}
    (hf : ∀ a a' b, view a = view a' → Twin view (f a b) (f' a' b)) (bs : List β) {a a' : α}
    (ha : view a = view a') : Twin view (bs.foldlM f a) (bs.foldlM f' a') := by
  induction bs generalizing a a' with
  | nil => exact Twin.pure ha
  | cons b bs ih =>
    rw [List.foldlM_cons, List.foldlM_cons]
    exact Twin.bind (hf a a' b ha) fun _ _ ha => ih ha

/-- A remembered table is a twin where its computation is: both have it remembered or
    busy, or neither. -/
theorem Twin.once {facet : Facet} {d : Descriptor} {tables : Memo → List (Descriptor × α)}
    {store : α → Memo → Memo} {circular : α} {compute compute' : Query α}
    (htables : ∀ m m' : Memo, m.outline = m'.outline →
      ((tables m).lookup d).map view = ((tables m').lookup d).map view)
    (hstore : ∀ a a' m m', view a = view a' → m.outline = m'.outline →
      (store a m).outline = (store a' m').outline)
    (h : Twin view compute compute') :
    Twin view (Query.once facet d tables store circular compute)
      (Query.once facet d tables store circular compute') := by
  intro m m' hm
  have hlookup := htables m m' hm
  have hbusy : m.isBusy facet d = m'.isBusy facet d := by
    show m.outline.isBusy facet d = m'.outline.isBusy facet d
    rw [hm]
  have henter : (m.enter facet d).outline = (m'.enter facet d).outline :=
    congrArg (Memo.enter · facet d) hm
  obtain ⟨ha, hleft⟩ := h _ _ henter
  rw [once_run, once_run, ← hbusy]
  cases hl : (tables m).lookup d <;> cases hl' : (tables m').lookup d <;>
    simp only [hl, hl', Option.map_some, Option.map_none, Option.some.injEq, reduceCtorEq]
      at hlookup ⊢
  case some.some => exact ⟨hlookup, hm⟩
  case none.none =>
    split
    · exact ⟨rfl, hm⟩
    · exact ⟨ha, hstore _ _ _ _ ha (congrArg (Memo.leave · facet d) hleft)⟩

end Query

/-! ## Class paths that look alike -/

inductive Shape.Alike : Shape → Shape → Prop where
  | unknown : Alike .unknown .unknown
  | array : Alike .array .array
  | defined {c c' : ClassDef} (h : c.Alike c') : Alike (.defined c) (.defined c')
  | missing : Alike .missing .missing

namespace ClassPath

/-- The same runtime and rearranged definitions. -/
structure Rearranged (p p' : ClassPath) : Prop where
  runtime : p.runtime = p'.runtime
  classes : ∀ d, Option.Rel ClassDef.Rearranged (p.definition? d) (p'.definition? d)

structure Alike (p p' : ClassPath) : Prop where
  runtime : p.runtime = p'.runtime
  classes : ∀ d, Option.Rel ClassDef.Alike (p.definition? d) (p'.definition? d)

variable {p p' : ClassPath}

/-- Sets of rearranged classes make a rearranged class path. -/
theorem Rearranged.of_sets (hruntime : p.runtime = p'.runtime)
    (h : List.Forall₂ (fun s s' => List.Forall₂ ClassDef.Rearranged s.classes s'.classes)
      p.sets p'.sets) : p.Rearranged p' := by
  refine ⟨hruntime, fun d => ?_⟩
  have hset (cs cs' : List ClassDef) (hs : List.Forall₂ ClassDef.Rearranged cs cs') :
      Option.Rel ClassDef.Rearranged (cs.find? (·.descriptor == d))
        (cs'.find? (·.descriptor == d)) := by
    induction hs with
    | nil => exact .none
    | cons hc _ ih =>
      rw [List.find?_cons, List.find?_cons, hc.descriptor]
      split
      · exact .some hc
      · exact ih
  unfold definition?
  generalize p.sets = sets, p'.sets = sets' at h
  induction h with
  | nil => exact .none
  | @cons s s' _ _ hs _ ih =>
    have hfound : Option.Rel ClassDef.Rearranged (s.find? d) (s'.find? d) := hset _ _ hs
    rw [List.findSome?_cons, List.findSome?_cons]
    generalize s.find? d = o, s'.find? d = o' at hfound
    cases hfound with
    | none => exact ih
    | some hc => exact .some hc

theorem Rearranged.alike (h : p.Rearranged p')
    (hdistinct : ∀ d c, p.definition? d = some c → c.DistinctMethods) : p.Alike p' := by
  refine ⟨h.runtime, fun d => ?_⟩
  have hd := h.classes d
  have hc := hdistinct d
  generalize p.definition? d = o, p'.definition? d = o' at hd hc
  cases hd with
  | none => exact .none
  | some hr => exact .some (hr.alike (hc _ rfl))

namespace Alike

variable (h : p.Alike p')
include h

theorem shape (d : Descriptor) : (p.shape d).Alike (p'.shape d) := by
  have hd := h.classes d
  unfold ClassPath.shape
  split
  · exact .unknown
  · split
    · exact .array
    · generalize p.definition? d = o, p'.definition? d = o' at hd
      cases hd with
      | none => exact .missing
      | some hc => exact .defined hc

theorem isResolved (d : Descriptor) : p.isResolved d = p'.isResolved d := by
  have hs := h.shape d
  unfold ClassPath.isResolved
  generalize p.shape d = s, p'.shape d = s' at hs
  cases hs <;> rfl

theorem tableOwner (d : Descriptor) : p.tableOwner d = p'.tableOwner d := by
  have hs := h.shape d
  unfold ClassPath.tableOwner
  generalize p.shape d = s, p'.shape d = s' at hs
  cases hs <;> rfl

theorem isInterface (d : Descriptor) : p.isInterface d = p'.isInterface d := by
  have hs := h.shape d
  unfold ClassPath.isInterface
  generalize p.shape d = s, p'.shape d = s' at hs
  cases hs with
  | defined hc => simp only [hc.isInterface]
  | _ => rfl

end Alike

/-! ## Interfaces -/

open Query

section Interfaces

variable (h : p.Alike p')
  {interfacesOf interfacesOf' : Descriptor → Query (Computed InterfaceMap)}
  (hask : ∀ d, Twin Computed.outline (interfacesOf d) (interfacesOf' d))

include h hask

theorem addInterface_twin (acc acc' : Computed InterfaceMap) (d : Descriptor)
    (hacc : acc.outline = acc'.outline) :
    Twin Computed.outline (p.addInterface interfacesOf acc d)
      (p'.addInterface interfacesOf' acc' d) := by
  obtain ⟨hvalue, hflag⟩ := Computed.outline_eq_iff.1 hacc
  have hd := h.classes d
  unfold addInterface
  refine Twin.ite ?_ (Twin.pure hacc) (Twin.bind (hask d) fun sub sub' hsub => Twin.pure ?_)
  · rw [← acc.value.contains_outline, ← acc'.value.contains_outline, hvalue]
  · obtain ⟨hsubValue, hsubFlag⟩ := Computed.outline_eq_iff.1 hsub
    have hentries : outlines sub.value.entries = outlines sub'.value.entries :=
      congrArg InterfaceMap.entries hsubValue
    generalize p.definition? d = o, p'.definition? d = o' at hd
    cases hd with
    | none => simp only [Computed.outline, InterfaceMap.outline_insertAll,
        InterfaceMap.outline_insert, hvalue, hflag, hentries, hsubFlag]
    | some hc => simp [Computed.outline, InterfaceMap.outline_insertAll,
        InterfaceMap.outline_insert, InterfaceEntry.outline, hc.outline_eq, hvalue, hflag, hentries,
        hsubFlag]

theorem addInherited_twin (acc acc' : Computed InterfaceMap) (s : Descriptor)
    (hacc : acc.outline = acc'.outline) :
    Twin Computed.outline (p.addInherited interfacesOf acc s)
      (p'.addInherited interfacesOf' acc' s) := by
  refine Twin.bind (hask s) fun i i' hi => Twin.pure ?_
  obtain ⟨hvalue, hflag⟩ := Computed.outline_eq_iff.1 hacc
  obtain ⟨hi, hiFlag⟩ := Computed.outline_eq_iff.1 hi
  have hentries : outlines i.value.entries = outlines i'.value.entries :=
    congrArg InterfaceMap.entries hi
  have hthrough (es : List (Descriptor × InterfaceEntry)) :
      outlines (es.map fun e => (e.1, e.2.throughSuperclass)) =
        (outlines es).map fun e => (e.1, e.2.throughSuperclass) := by
    simp only [outlines, List.map_map, Function.comp_def, InterfaceEntry.outline_throughSuperclass]
  simp only [Computed.outline, InterfaceMap.outline_insertAll, hthrough, hvalue, hflag, hentries,
    hiFlag, h.isResolved]

theorem collectInterfaces_twin {c c' : ClassDef} (hc : c.Alike c') :
    Twin Computed.outline (p.collectInterfaces interfacesOf c)
      (p'.collectInterfaces interfacesOf' c') := by
  unfold collectInterfaces
  rw [hc.interfaces, hc.superclass, hc.isInterface, hc.descriptor]
  refine Twin.bind (Twin.foldlM (addInterface_twin h hask) _ rfl) fun acc acc' hacc => ?_
  dsimp only
  have hself : (if c'.isInterface then
        ⟨acc.value.insert c'.descriptor .inherited, acc.complete⟩ else acc).outline =
      (if c'.isInterface then
        ⟨acc'.value.insert c'.descriptor .inherited, acc'.complete⟩ else acc').outline := by
    split
    · obtain ⟨hvalue, hflag⟩ := Computed.outline_eq_iff.1 hacc
      simp only [Computed.outline, InterfaceMap.outline_insert, hvalue, hflag]
    · exact hacc
  split
  · exact addInherited_twin h hask _ _ _ hself
  · exact Twin.pure hself

theorem interfacesStep_twin (d : Descriptor) :
    Twin Computed.outline (p.interfacesStep interfacesOf d)
      (p'.interfacesStep interfacesOf' d) := by
  have hs := h.shape d
  unfold interfacesStep
  generalize p.shape d = s, p'.shape d = s' at hs
  cases hs with
  | defined hc =>
    refine Twin.once (fun m m' hm => ?_) (fun a a' m m' ha hm => ?_)
      (collectInterfaces_twin h hask hc)
    · rw [← lookup_map_snd, ← lookup_map_snd]
      exact congrArg (fun m => m.interfaces.lookup d) hm
    · show { m.outline with interfaces := (d, a.outline) :: m.outline.interfaces } =
        { m'.outline with interfaces := (d, a'.outline) :: m'.outline.interfaces }
      rw [ha, hm]
  | _ => exact Twin.pure rfl

end Interfaces

/-- A table is a twin if one level of it is: the last levels are never come to, so both
    can be taken to the same depth. -/
theorem Grounded.twin {α γ : Type} {view : α → γ} {within within' : Nat → Descriptor → Query α}
    {step step' : (Descriptor → Query α) → Descriptor → Query α} (hp : p.Grounded within step)
    (hp' : p'.Grounded within' step') (a : α)
    (hstep : ∀ tableOf tableOf', (∀ d, Twin view (tableOf d) (tableOf' d)) →
      ∀ d, Twin view (step tableOf d) (step' tableOf' d)) (d : Descriptor) :
    Twin view (within (p.size + 2) d) (within' (p'.size + 2) d) := by
  have hiterate (n : Nat) (d : Descriptor) :
      Twin view (step^[n] (fun _ => pure a) d) (step'^[n] (fun _ => pure a) d) := by
    induction n generalizing d with
    | zero => exact Twin.pure rfl
    | succ n ih =>
      rw [Function.iterate_succ_apply', Function.iterate_succ_apply']
      exact hstep _ _ ih d
  rw [← hp.below (max (p.size + 2) (p'.size + 2)) (Nat.le_max_left ..) fun _ => pure a,
    ← hp'.below (max (p.size + 2) (p'.size + 2)) (Nat.le_max_right ..) fun _ => pure a]
  exact hiterate _ d

section Tables

variable (h : p.Alike p')
include h

theorem interfaces_twin (d : Descriptor) :
    Twin Computed.outline (p.interfaces d) (p'.interfaces d) :=
  p.interfaces_grounded.twin p'.interfaces_grounded ⟨InterfaceMap.empty, false⟩
    (fun _ _ hask => interfacesStep_twin h hask) d

theorem directInterfaces_twin (d : Descriptor) :
    Twin (List.map ClassDef.outline) (p.directInterfaces d) (p'.directInterfaces d) := by
  refine Twin.bind (interfaces_twin h d) fun t t' ht => Twin.pure ?_
  rw [← InterfaceMap.directDefinitions_outline, ← InterfaceMap.directDefinitions_outline]
  exact congrArg (fun t => t.value.directDefinitions) ht

theorem implements_twin (d iface : Descriptor) :
    Twin id (p.implements d iface) (p'.implements d iface) := by
  refine Twin.bind (interfaces_twin h d) fun t t' ht => ?_
  obtain ⟨hvalue, hflag⟩ := Computed.outline_eq_iff.1 ht
  have hget : (t.value.get? iface).map InterfaceEntry.outline =
      (t'.value.get? iface).map InterfaceEntry.outline := by
    rw [← InterfaceMap.get?_outline, ← InterfaceMap.get?_outline, hvalue]
  rw [hflag]
  generalize t.value.get? iface = o, t'.value.get? iface = o' at hget
  match o, o', hget with
  | none, none, _ => exact Twin.pure rfl
  | some (.direct _), some (.direct _), _ => exact Twin.pure rfl
  | some .inherited, some .inherited, _ => exact Twin.pure rfl
  | some .unresolved, some .unresolved, _ => exact Twin.pure rfl

/-! ## Virtual methods -/

theorem addDefault_twin (owner : Descriptor) (inherited : Nat) (t : Vtable) (e : VtableEntry) :
    Twin id (p.addDefault owner inherited t e) (p'.addDefault owner inherited t e) := by
  unfold addDefault
  rw [h.runtime]
  split
  · exact Twin.pure rfl
  · split
    · exact Twin.pure rfl
    next i _ old _ =>
      refine Twin.ite Iff.rfl (Twin.pure rfl) (Twin.ite ?_ ?_ ?_)
      · rw [h.isInterface]
      · refine Twin.bind_same (implements_twin h old.origin e.origin) fun r => ?_
        split <;> exact Twin.pure rfl
      · exact Twin.ite Iff.rfl (Twin.pure rfl) (Twin.pure rfl)

theorem vtableOver_twin (t : Vtable) {c c' : ClassDef} (hc : c.Alike c') :
    Twin id (p.vtableOver t c) (p'.vtableOver t c') := by
  have hown : Vtable.withOwn p'.runtime.checksPackagePrivate c t =
      Vtable.withOwn p'.runtime.checksPackagePrivate c' t := by
    simp only [Vtable.withOwn, hc.sortedMethods, hc.descriptor]
  have hflag (u : Vtable) :
      Twin id (do return ⟨u, (← p.interfaces c'.descriptor).complete⟩ : Query (Computed Vtable))
        (do return ⟨u, (← p'.interfaces c'.descriptor).complete⟩) := by
    refine Twin.bind (interfaces_twin h _) fun t t' ht => Twin.pure ?_
    rw [(Computed.outline_eq_iff.1 ht).2]
  unfold vtableOver
  rw [hc.isInterface, hc.descriptor, h.runtime]
  refine Twin.ite Iff.rfl (Twin.pure rfl) ?_
  dsimp only
  rw [hown]
  refine Twin.bind (directInterfaces_twin h _) fun ifaces ifaces' hi => ?_
  simp only [withDefaults, Vtable.withInterfaces, Vtable.flatMap_interfaceEntries _ _ hi, pure_bind]
  split
  · exact hflag _
  · refine Twin.bind_same (Twin.foldlM ?_ _ rfl) fun u => hflag _
    intro u u' e hu
    obtain rfl : u = u' := hu
    exact addDefault_twin h _ _ u e

/-! ## Tables over that of the class above -/

section Kinds

variable {α : Type} {k : TableKind α}

omit h in
theorem inherited_twin {tableOf tableOf' : Descriptor → Query (Except MissingClass (Computed α))}
    (hask : ∀ d, Twin id (tableOf d) (tableOf' d)) {c c' : ClassDef} (hc : c.Alike c') :
    Twin id (k.inherited tableOf c) (k.inherited tableOf' c') := by
  unfold TableKind.inherited
  rw [hc.superclass]
  split
  · exact Twin.pure rfl
  · refine Twin.bind_same (hask _) fun r => ?_
    split
    · exact Twin.pure rfl
    · refine Twin.ite Iff.rfl (Twin.pure rfl) (Twin.bind_same (hask _) fun r => ?_)
      split <;> exact Twin.pure rfl

/-- One level of a table of which the memo shows all. -/
theorem step_twin (htables : ∀ m : Memo, k.tables m.outline = k.tables m)
    (hstore : ∀ d t (m : Memo), (k.store d t m).outline = k.store d t m.outline)
    (hfinish : ∀ i c c', ClassDef.Alike c c' → Twin id (k.finish p i c) (k.finish p' i c'))
    {tableOf tableOf' : Descriptor → Query (Except MissingClass (Computed α))}
    (hask : ∀ d, Twin id (tableOf d) (tableOf' d)) (d : Descriptor) :
    Twin id (k.step p tableOf d) (k.step p' tableOf' d) := by
  have hs := h.shape (p.tableOwner d)
  unfold TableKind.step classDefinition
  dsimp only
  rw [← h.tableOwner]
  generalize p.shape (p.tableOwner d) = s, p'.shape (p.tableOwner d) = s' at hs
  cases hs with
  | defined hc =>
    refine Twin.bind_same (Twin.once ?_ ?_ ?_) fun t => Twin.pure rfl
    · intro m m' hm
      rw [← htables m, ← htables m', hm]
    · intro t t' m m' ht hm
      obtain rfl : t = t' := ht
      rw [hstore, hstore, hm]
    · exact Twin.bind_same (inherited_twin hask hc) fun i => hfinish i _ _ hc
  | _ => exact Twin.pure rfl

end Kinds

theorem layout_twin (d : Descriptor) : Twin id (p.layout d) (p'.layout d) := by
  refine p.layout_grounded.twin p'.layout_grounded (.ok ⟨FieldLayout.empty, false⟩) ?_ d
  refine fun _ _ hask => step_twin h (fun _ => rfl) (fun _ _ _ => rfl) ?_ hask
  intro i c c' hc
  exact Twin.pure (by rw [layoutOver_perm h.runtime hc.descriptor hc.fields])

theorem vtable_twin (d : Descriptor) : Twin id (p.vtable d) (p'.vtable d) := by
  refine p.vtable_grounded.twin p'.vtable_grounded (.ok ⟨[], false⟩) ?_ d
  refine fun _ _ hask => step_twin h (fun _ => rfl) (fun _ _ _ => rfl) ?_ hask
  intro i c c' hc
  exact Twin.bind_same (vtableOver_twin h i.value hc) fun _ => Twin.pure rfl

theorem outline_asked {m m' : Memo} (hm : m.outline = m'.outline) (q : Facet × Descriptor) :
    (p.asked m q).outline = (p'.asked m' q).outline := by
  obtain ⟨facet, d⟩ := q
  cases facet with
  | interfaces => exact (interfaces_twin h d m m' hm).2
  | layout => exact (layout_twin h d m m' hm).2
  | vtable => exact (vtable_twin h d m m' hm).2

theorem outline_memoAfter (history : List (Facet × Descriptor)) :
    (p.memoAfter history).outline = (p'.memoAfter history).outline := by
  have hasked (m m' : Memo) (hm : m.outline = m'.outline) :
      (history.foldl p.asked m).outline = (history.foldl p'.asked m').outline := by
    induction history generalizing m m' with
    | nil => exact hm
    | cons q history ih => exact ih _ _ (outline_asked h hm q)
  exact hasked _ _ rfl

end Tables

/-- On class paths of one runtime whose definitions differ in nothing but the order of
    fields and methods and in static fields and direct methods, every class has the same
    layout and the same virtual methods, if no class has two virtual methods of one
    name and prototype. -/
theorem tables_ignore_declaration_order {p p' : ClassPath} (h : p.Rearranged p')
    (hdistinct : ∀ d c, p.definition? d = some c → c.DistinctMethods)
    (history : List (Facet × Descriptor)) (d : Descriptor) :
    ((p.layout d).run (p.memoAfter history)).1 = ((p'.layout d).run (p'.memoAfter history)).1 ∧
      ((p.vtable d).run (p.memoAfter history)).1 =
        ((p'.vtable d).run (p'.memoAfter history)).1 := by
  have halike := h.alike hdistinct
  have hm := outline_memoAfter halike history
  exact ⟨(layout_twin halike d _ _ hm).1, (vtable_twin halike d _ _ hm).1⟩

end ClassPath

/-! ## A class and its interface in another order -/

namespace Sample

def report : MethodDef := { name := "report", prototype := ⟨["I"], "V"⟩, access := ⟨1⟩ }

def depot : ClassDef :=
  { descriptor := "LDepot;", access := ⟨1⟩, superclass := some Descriptor.object
    interfaces := ["LTask;"]
    fields := [⟨"count", "I", ⟨2⟩⟩, ⟨"label", "Ljava/lang/String;", ⟨2⟩⟩, ⟨"open", "Z", ⟨2⟩⟩]
    methods := [report, task] }

/-- It has a static field and a constructor besides. -/
def depotReordered : ClassDef :=
  { depot with
    fields := ⟨"INSTANCES", "I", ⟨8⟩⟩ :: depot.fields.reverse
    methods := depot.methods.reverse ++
      [{ name := "<init>", prototype := ⟨[], "V"⟩, access := ⟨0x10001⟩ }] }

/-- A class path of Android 7. -/
def depots : ClassPath := ⟨⟨24, noArt⟩, [⟨[root, tasks, depot]⟩], ⟨[]⟩⟩

def depotsReordered : ClassPath :=
  ⟨⟨24, noArt⟩, [⟨[root, { tasks with methods := tasks.methods.reverse }, depotReordered]⟩], ⟨[]⟩⟩

theorem depots_rearranged : depots.Rearranged depotsReordered := by
  refine .of_sets rfl (.cons (.cons ?_ (.cons ?_ (.cons ?_ .nil))) .nil)
  · exact ⟨rfl, rfl, rfl, rfl, .refl _, .refl _⟩
  · exact ⟨rfl, rfl, rfl, rfl, by decide +kernel, by decide +kernel⟩
  · exact ⟨rfl, rfl, rfl, rfl, by decide +kernel, by decide +kernel⟩

theorem depots_distinct (d : Descriptor) (c : ClassDef) (hc : depots.definition? d = some c) :
    c.DistinctMethods := by
  obtain ⟨set, hset, hfound⟩ := List.exists_of_findSome?_eq_some hc
  obtain rfl := List.mem_singleton.1 hset
  have hmem := List.mem_of_find?_eq_some hfound
  have hall : ∀ c ∈ [root, tasks, depot], c.DistinctMethods := by
    unfold ClassDef.DistinctMethods MethodDef.Distinct
    decide +kernel
  exact hall c hmem

def depotLayout : FieldLayout :=
  ⟨[(0, ⟨Descriptor.object, "locked", "Z"⟩), (2, ⟨"LDepot;", "open", "Z"⟩),
    (4, ⟨"LDepot;", "label", "Ljava/lang/String;"⟩), (8, ⟨"LDepot;", "count", "I"⟩)], 12⟩

theorem layout_depot :
    ArtLayout.layout .current "LDepot;" rootLayout depot.instanceFields = depotLayout := by
  have hsorted : (depot.instanceFields.mergeSort fun a b =>
      (ArtLayout.order .current a b).isLE) =
      [⟨"label", "Ljava/lang/String;", ⟨2⟩⟩, ⟨"count", "I", ⟨2⟩⟩, ⟨"open", "Z", ⟨2⟩⟩] :=
    mergeSort_eq_of_ascending (by decide +kernel) (by decide +kernel)
  unfold ArtLayout.layout
  rw [hsorted]
  decide +kernel

end Sample

open Sample in
theorem depot_reordered :
    depots.Rearranged depotsReordered ∧
      (∀ d c, depots.definition? d = some c → c.DistinctMethods) ∧
      ((depots.layout "LDepot;").run (depots.memoAfter [])).1 = .ok ⟨depotLayout, true⟩ ∧
      ((depots.layout "LDepot;").run (depots.memoAfter [])).1 =
        ((depotsReordered.layout "LDepot;").run (depotsReordered.memoAfter [])).1 ∧
      ((depots.vtable "LDepot;").run (depots.memoAfter [])).1 =
        ((depotsReordered.vtable "LDepot;").run (depotsReordered.memoAfter [])).1 := by
  have hlayout : ((depots.layout "LDepot;").run (depots.memoAfter [])).1 =
      .ok ⟨depotLayout, true⟩ := by
    rw [← layout_depot, ← layout_root .current]
    rfl
  exact ⟨depots_rearranged, depots_distinct, hlayout,
    ClassPath.tables_ignore_declaration_order depots_rearranged depots_distinct [] "LDepot;"⟩

end SymbolicDex
