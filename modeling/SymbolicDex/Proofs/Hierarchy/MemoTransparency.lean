import SymbolicDex.Proofs.Hierarchy.Questions

/- What is remembered does not show. Without circular declarations a class never
   meets itself while it is busy, so every table is the one that the declarations
   give, whoever asked for it first. Here that table is said without a memo, as a
   relation: an interface table is collected from those of the classes named
   (`Collected`), and a layout or virtual method table is finished from that of
   the class above (`TableKind.IsTable`).

   What is proved:
     1. `Collected.unique`, `TableKind.IsTable.unique`: a class has one table.
     2. `collects_collected`, `TableKind.handsDown_isTable`: it is what is computed
        and remembered.
     3. `answers_ignore_history`: so any question gets the answer that a new class
        path gives, whatever was asked before. -/
namespace SymbolicDex

namespace Query

variable {α β : Type} {I : Memo → Prop} {P : α → Prop} {q q' : Query α}

/-- The first question is answered, where `I` holds, as the second always is. -/
def Agrees (I : Memo → Prop) (q q' : Query α) : Prop :=
  ∃ a, Gives I (fun b => b = a) q ∧ ∀ m : Memo, (q'.run m).1 = a

theorem Agrees.pure (a : α) : Agrees I (Pure.pure a) (Pure.pure a) :=
  ⟨a, Gives.pure rfl, fun _ => rfl⟩

theorem Agrees.bind {f f' : α → Query β} (hq : Agrees I q q') (hf : ∀ a, Agrees I (f a) (f' a)) :
    Agrees I (q >>= f) (q' >>= f') := by
  obtain ⟨a, ha, ha'⟩ := hq
  obtain ⟨b, hb, hb'⟩ := hf a
  refine ⟨b, Gives.bind ha fun a' h => h ▸ hb, fun m => ?_⟩
  rw [run_bind, ha' m]
  exact hb' _

theorem Agrees.foldlM {f f' : β → α → Query β} {as : List α}
    (hf : ∀ b, ∀ a ∈ as, Agrees I (f b a) (f' b a)) (b : β) :
    Agrees I (as.foldlM f b) (as.foldlM f' b) := by
  induction as generalizing b with
  | nil => exact Agrees.pure b
  | cons a as ih =>
    rw [List.foldlM_cons, List.foldlM_cons]
    exact Agrees.bind (hf b a List.mem_cons_self) fun b' =>
      ih (fun b a ha => hf b a (List.mem_cons_of_mem _ ha)) b'

theorem Agrees.gives (h : Agrees I q q') : Gives I (fun b => b = (q'.run Memo.empty).1) q := by
  obtain ⟨a, ha, ha'⟩ := h
  rw [ha']
  exact ha

/-- An answer of which there is one only does not depend on the memo. -/
theorem Gives.fixed (h : Gives I P q) (hunique : ∀ a b, P a → P b → a = b) {m : Memo} (hm : I m) :
    Fixed I q :=
  ⟨(q.run m).1, fun m' hm' => ⟨hunique _ _ (h m' hm').1 (h m hm).1, (h m' hm').2⟩⟩

theorem Fixed.run_eq (h : Fixed I q) {m m' : Memo} (hm : I m) (hm' : I m') :
    (q.run m).1 = (q.run m').1 := by
  obtain ⟨a, ha⟩ := h
  exact (ha m hm).1.trans (ha m' hm').1.symm

end Query

namespace ClassPath

open Query

variable (p : ClassPath)

/-! ## Interfaces -/

/-- What a class collects from given tables of the classes that it names. -/
def collectedFrom (tables : Descriptor → Computed InterfaceMap) (c : ClassDef) :
    Computed InterfaceMap :=
  ((p.collectInterfaces (fun s => pure (tables s)) c).run Memo.empty).1

/-- The interface table that the declarations give. -/
inductive Collected : Descriptor → Computed InterfaceMap → Prop where
  | unknown {d : Descriptor} (h : p.shape d = .unknown) : Collected d ⟨InterfaceMap.empty, true⟩
  | array {d : Descriptor} (h : p.shape d = .array) : Collected d ⟨InterfaceMap.ofArray, true⟩
  | missing {d : Descriptor} (h : p.shape d = .missing) : Collected d ⟨InterfaceMap.empty, false⟩
  | defined {d : Descriptor} {c : ClassDef} {tables : Descriptor → Computed InterfaceMap}
      (h : p.shape d = .defined c) (above : ∀ s, p.Declares d s → Collected s (tables s)) :
      Collected d (p.collectedFrom tables c)

variable {p} {d : Descriptor} {c : ClassDef} {tables tables' : Descriptor → Computed InterfaceMap}

/-- Collecting uses the tables of the classes named, however they are asked for. -/
theorem collectInterfaces_gives {I : Memo → Prop}
    {interfacesOf : Descriptor → Query (Computed InterfaceMap)}
    (h : ∀ s ∈ c.superclass.toList ++ c.interfaces,
      Gives I (fun t => t = tables s) (interfacesOf s)) :
    Gives I (fun t => t = p.collectedFrom tables c) (p.collectInterfaces interfacesOf c) := by
  have hask (s : Descriptor) (hs : s ∈ c.superclass.toList ++ c.interfaces) :
      Agrees I (interfacesOf s) (pure (tables s)) := ⟨_, h s hs, fun _ => rfl⟩
  refine Agrees.gives ?_
  unfold collectInterfaces
  refine Agrees.bind (Agrees.foldlM (fun acc s hs => ?_) _) fun acc => ?_
  · unfold addInterface
    split
    · exact Agrees.pure _
    · exact Agrees.bind (hask s (List.mem_append_right _ hs)) fun _ => Agrees.pure _
  · dsimp only
    split
    · next s hs => exact Agrees.bind (hask s (by simp [hs])) fun _ => Agrees.pure _
    · exact Agrees.pure _

theorem collectedFrom_congr
    (h : ∀ s ∈ c.superclass.toList ++ c.interfaces, tables s = tables' s) :
    p.collectedFrom tables c = p.collectedFrom tables' c := by
  have hask (s : Descriptor) (hs : s ∈ c.superclass.toList ++ c.interfaces) :
      Gives (fun _ => True) (fun t => t = tables' s) (pure (tables s)) := Gives.pure (h s hs)
  exact (collectInterfaces_gives hask Memo.empty trivial).1

theorem Collected.unique {t t' : Computed InterfaceMap} (h : p.Collected d t)
    (h' : p.Collected d t') : t = t' := by
  induction h generalizing t' with
  | unknown h => cases h' <;> simp_all
  | array h => cases h' <;> simp_all
  | missing h => cases h' <;> simp_all
  | defined h _ ih =>
    cases h' with
    | defined h' above' =>
      obtain rfl := Shape.defined.inj (h.symm.trans h')
      refine collectedFrom_congr fun s hs => ?_
      have hdeclares := declares_of_classDefinition (classDefinition_ok_iff.2 h) hs
      exact ih s hdeclares (above' s hdeclares)
    | _ => simp_all

theorem recalling_empty : Recalling p.Collected Memo.empty := ⟨rfl, fun _ _ ht => nomatch ht⟩

/-- Without circular declarations this is the table that is computed. -/
theorem collects_collected (hacyclic : ∀ d, ¬ Relation.TransGen p.Declares d d) :
    p.Collects p.Collected where
  unknown := .unknown (by simp [shape])
  array d hd := by
    have hne : d ≠ Descriptor.unknown := by
      rintro rfl
      exact absurd hd (by decide)
    exact .array (by simp [shape, hne, hd])
  missing d hd := .missing hd
  circular d hd := absurd hd (hacyclic d)
  collected d c hc I interfacesOf hof m hm := by
    have hgives (s : Descriptor) (hs : p.Declares d s) :
        Gives I (fun t => t = ((interfacesOf s).run m).1) (interfacesOf s) := fun m' hm' =>
      ⟨(hof s hs m' hm').1.unique (hof s hs m hm).1, (hof s hs m' hm').2⟩
    obtain ⟨ht, hm'⟩ := collectInterfaces_gives (c := c)
      (fun s hs => hgives s (declares_of_classDefinition hc hs)) m hm
    refine ⟨?_, hm'⟩
    rw [ht]
    exact .defined (classDefinition_ok_iff.1 hc) fun s hs => (hof s hs m hm).1

end ClassPath

/-! ## Tables finished from that of the class above -/

namespace TableKind

open Query

variable {α : Type}

/-- The table that the declarations give, where finishing one has one outcome in
    memos with `J`. -/
inductive IsTable (k : TableKind α) (p : ClassPath) (J : Memo → Prop) :
    Descriptor → Computed α → Prop where
  | first {d : Descriptor} {c : ClassDef} {t : Computed α} (hc : p.classDefinition d = .ok c)
      (hnone : p.above? k.fallback d = none)
      (ht : Gives J (fun t' => t' = t) (k.finish p ⟨k.empty, c.superclass.isNone⟩ c)) :
      IsTable k p J d t
  | handed {d s : Descriptor} {c : ClassDef} {i t : Computed α} (hc : p.classDefinition d = .ok c)
      (hs : p.Below k.fallback d s) (hi : IsTable k p J s i)
      (ht : Gives J (fun t' => t' = t)
        (k.finish p ⟨i.value, i.complete && p.superclassHasTable c⟩ c)) :
      IsTable k p J d t

variable {k : TableKind α} {p : ClassPath} {J : Memo → Prop} {d : Descriptor}

theorem IsTable.unique {m : Memo} (hm : J m) {t t' : Computed α} (h : k.IsTable p J d t)
    (h' : k.IsTable p J d t') : t = t' := by
  induction h generalizing t' with
  | first hc hnone ht =>
    cases h' with
    | first hc' _ ht' =>
      cases hc.symm.trans hc'
      exact (ht m hm).1.symm.trans (ht' m hm).1
    | handed _ hs' => simp [ClassPath.Below, hnone] at hs'
  | handed hc hs _ ht ih =>
    cases h' with
    | first _ hnone' => simp [ClassPath.Below, hnone'] at hs
    | handed hc' hs' hi' ht' =>
      cases hc.symm.trans hc'
      cases hs.symm.trans hs'
      cases ih hi'
      exact (ht m hm).1.symm.trans (ht' m hm).1

theorem handsDown_isTable (henter : ∀ d m, J m → J (m.enter k.facet d))
    (hstored : ∀ d t m, J m → J (k.store d t (m.leave k.facet d)))
    (hacyclic : p.Acyclic k.fallback) (hfinish : ∀ i c, Fixed J (k.finish p i c)) :
    k.HandsDown p J (k.IsTable p J) where
  enter := henter
  stored := hstored
  circular d hd := absurd hd (hacyclic d)
  finished d c i hc hi := by
    obtain ⟨t, ht⟩ := hfinish i c
    refine ht.mono fun t' ht' => ?_
    subst ht'
    cases hi with
    | first hnone => exact .first hc hnone ht
    | handed hs hi => exact .handed hc hs hi ht

theorem answers_unique {m : Memo} (hm : J m) {r r' : Except MissingClass (Computed α)}
    (h : Answers p (k.IsTable p J) d r) (h' : Answers p (k.IsTable p J) d r') : r = r' := by
  unfold Answers at h h'
  cases hc : p.classDefinition (p.tableOwner d) with
  | error e =>
    simp only [hc] at h h'
    rw [h, h']
  | ok c =>
    simp only [hc] at h h'
    obtain ⟨t, rfl, ht⟩ := h
    obtain ⟨t', rfl, ht'⟩ := h'
    rw [ht.unique hm ht']

end TableKind

/-! ## Any question after any history -/

namespace ClassPath

open Query TableKind

variable {p : ClassPath}

/-- The class above is declared, or it is Object. -/
theorem Below.cases {fallback : Bool} {d s : Descriptor} (h : p.Below fallback d s) :
    s = Descriptor.object ∨ p.Declares d s := by
  unfold Below above? at h
  cases hc : p.classDefinition d with
  | error e => simp [hc] at h
  | ok c =>
    simp only [hc] at h
    cases hsuper : c.superclass with
    | none => simp [hsuper] at h
    | some s' =>
      have hdeclares : p.Declares d s' := declares_of_classDefinition hc (by simp [hsuper])
      have howner : p.tableOwner s' = Descriptor.object ∨ p.tableOwner s' = s' := by
        unfold tableOwner
        split <;> simp
      simp only [hsuper] at h
      split at h
      · cases h
        rcases howner with howner | howner
        · exact .inl howner
        · exact .inr (howner.symm ▸ hdeclares)
      · split at h
        · cases h
          exact .inl rfl
        · cases h

section Acyclic

variable (hacyclic : ∀ d, ¬ Relation.TransGen p.Declares d d)
  (hobject : ∀ c, p.definition? Descriptor.object = some c → c.superclass = none)
include hacyclic hobject

/-- Where Object extends nothing, standing in for others it makes no circle. -/
theorem acyclic_of_declares (fallback : Bool) : p.Acyclic fallback := by
  have hend (s : Descriptor) : ¬ p.Below fallback Descriptor.object s := by
    unfold Below above?
    cases hc : p.classDefinition Descriptor.object with
    | error e => simp
    | ok c => simp [hobject c (definition?_of_classDefinition hc)]
  intro d hloop
  -- a walk up stays on the declarations until it is at Object, where it ends
  have hup (e : Descriptor) (he : Relation.TransGen (p.Below fallback) d e) :
      e = Descriptor.object ∨ Relation.TransGen p.Declares d e := by
    induction he with
    | single hs => exact hs.cases.imp_right .single
    | @tail b e _ hs ih =>
      refine hs.cases.imp_right fun hdeclares => ?_
      rcases ih with rfl | ih
      · exact absurd hs (hend e)
      · exact ih.tail hdeclares
  rcases hup d hloop with rfl | hcircle
  · obtain ⟨s, hs, -⟩ := Relation.TransGen.head'_iff.1 hloop
    exact hend s hs
  · exact hacyclic d hcircle

theorem layout_handsDown :
    TableKind.layout.HandsDown p (fun _ => True) (TableKind.layout.IsTable p fun _ => True) :=
  handsDown_isTable (fun _ _ _ => trivial) (fun _ _ _ _ => trivial)
    (acyclic_of_declares hacyclic hobject _) fun _ _ => ⟨_, Gives.pure rfl⟩

theorem vtable_handsDown :
    TableKind.vtable.HandsDown p (Recalling p.Collected)
      (TableKind.vtable.IsTable p (Recalling p.Collected)) := by
  have hfixed (d : Descriptor) : Fixed (Recalling p.Collected) (p.interfaces d) :=
    (interfaces_gives (collects_collected hacyclic) d).fixed (fun _ _ h h' => h.unique h')
      recalling_empty
  refine handsDown_isTable (fun d m hm => hm.enter (by decide) d) (fun d t m hm => ?_)
    (acyclic_of_declares hacyclic hobject _) fun i c => ?_
  · have hleft := hm.leave .vtable d
    exact ⟨hleft.idle, hleft.recalls⟩
  · have hfinish : Composed p (Eq .interfaces) (TableKind.vtable.finish p i c) :=
      .bind (p.vtableOver_composed rfl i.value c) fun _ => .pure _
    exact hfinish.fixed (fun _ => hfixed) nofun nofun

/-- The tables in the memo are those that the declarations give. -/
theorem ask_fixed (q : Question) :
    Fixed (Kept p.Collected (TableKind.layout.IsTable p fun _ => True)
      (TableKind.vtable.IsTable p (Recalling p.Collected))) (p.ask q) := by
  refine (p.ask_composed q).fixed (fun _ d => ?_) (fun _ d => ?_) (fun _ d => ?_)
  · exact (interfaces_kept (collects_collected hacyclic) d).fixed (fun _ _ h h' => h.unique h')
      kept_empty
  · exact (layout_kept (layout_handsDown hacyclic hobject) d).fixed
      (fun _ _ h h' => answers_unique (m := Memo.empty) trivial h h') kept_empty
  · exact (vtable_kept (vtable_handsDown hacyclic hobject) d).fixed
      (fun _ _ h h' => answers_unique recalling_empty h h') kept_empty

end Acyclic

/-- Where no class declares itself as a supertype, directly or not, and Object
    extends nothing, a question is answered as a new class path answers it,
    whatever was asked before. -/
theorem answers_ignore_history (p : ClassPath)
    (hacyclic : ∀ d, ¬ Relation.TransGen p.Declares d d)
    (hobject : ∀ c, p.definition? Descriptor.object = some c →
      c.superclass = none ∧ c.interfaces = [])
    (history : List Question) (q : Question) :
    ((p.ask q).run (p.memoAfterAsking history)).1 = ((p.ask q).run Memo.empty).1 := by
  have hroot (c : ClassDef) (hc : p.definition? Descriptor.object = some c) :
      c.superclass = none := (hobject c hc).1
  refine (ask_fixed hacyclic hroot q).run_eq ?_ kept_empty
  exact kept_after (collects_collected hacyclic) (layout_handsDown hacyclic hroot)
    (vtable_handsDown hacyclic hroot) history

end ClassPath

/-! ## A class path with hidden and missing classes -/

namespace Sample

/-- A class with a field and a method, below a hidden one and a missing
    interface. -/
def patron : ClassDef :=
  { named "Lq/Patron;" (some "Lp/Hidden;") 1 [⟨"card", "I", ⟨1⟩⟩] [getter "card"] with
    interfaces := ["Lq/Reader;", "Lq/Gone;"] }

def library : ClassPath :=
  pathOf [named Descriptor.object none 1 [] [getter "hash"],
    named "Lq/Reader;" (some Descriptor.object) 513 [] [getter "card", getter "pages"],
    named "Lp/Hidden;" (some Descriptor.object) 0 [⟨"count", "I", ⟨1⟩⟩] [getter "size"], patron]

def libraryRank (d : Descriptor) : Nat :=
  if d = "Lq/Patron;" then 2 else if d = "Lp/Hidden;" ∨ d = "Lq/Reader;" then 1 else 0

/-- Questions that leave tables of every kind behind. -/
def asking : List Question :=
  [.vtable "Lq/Patron;", .commonSuperclass "Lq/Reader;" "Lq/Patron;", .layout "[I",
    .resolveMethod "Lq/User;" "Lp/Hidden;" 1 false, .interfaces "Lq/Gone;"]

end Sample

open Sample in
/-- The hidden class's field is named through the visible one, with and without
    questions before. -/
theorem patron_answered_again :
    (library.memoAfterAsking asking).vtables ≠ [] ∧
      ((library.ask (.resolveField "Lq/User;" "Lq/Patron;" 8)).run
        (library.memoAfterAsking asking)).1 = .ok ⟨"Lq/Patron;", "count", "I"⟩ := by
  have hobject (c : ClassDef) (hc : library.definition? Descriptor.object = some c) :
      c.superclass = none ∧ c.interfaces = [] := by
    have hroot : library.definition? Descriptor.object =
      some (named Descriptor.object none 1 [] [getter "hash"]) := by decide +kernel
    cases hroot.symm.trans hc
    exact ⟨rfl, rfl⟩
  have hnew : ((library.resolveField "Lq/User;" "Lq/Patron;" 8).run.run Memo.empty).1 =
    .ok ⟨"Lq/Patron;", "count", "I"⟩ := by decide +kernel
  refine ⟨by decide +kernel, ?_⟩
  exact (library.answers_ignore_history
    (ClassPath.not_declares_self libraryRank (by decide +kernel)) hobject asking _).trans hnew

end SymbolicDex
