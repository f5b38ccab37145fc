import SymbolicDex.Proofs.Hierarchy.ClassesAbove
import SymbolicDex.Proofs.Hierarchy.MemoGrowth

/- Field layouts and virtual method tables are computed by one scheme: get the
   table of the class above, which is remembered if it was asked for before, and
   finish it with what the class declares. `TableKind` is that scheme with its
   parameters. Circular declarations make a class meet itself while it is busy,
   and then what is remembered depends on the order of the questions. For the
   settled classes the order is of no matter to the following: the table of the
   class above is remembered too, and the table of the class was finished from
   it (`TableKind.Recorded`).

   What is proved:
     1. `TableKind.inherited_given`: what a settled class is given by the scheme
        is the remembered table of the class above.
     2. `TableKind.within_outcome`: one question keeps the record, and a settled
        class gets a table, which is remembered.
     3. `TableKind.within_preserves`, `TableKind.within_keeps`: the question touches
        no other tables. -/
namespace SymbolicDex

/-! ## What a question gives and leaves -/

namespace Query

variable {α β γ : Type} {I : Memo → Prop} {P : α → Prop} {Q : β → Prop}

/-- Asked of a memo with `I`, the question gives an answer with `P` and leaves a
    memo with `I`. -/
def Gives (I : Memo → Prop) (P : α → Prop) (q : Query α) : Prop :=
  ∀ m : Memo, I m → P (q.run m).1 ∧ I (q.run m).2

/-- A memo with `I` is left with `I`, whatever the answer. -/
abbrev Preserves (I : Memo → Prop) (q : Query α) : Prop := Gives I (fun _ => True) q

theorem Gives.pure {a : α} (h : P a) : Gives I P (Pure.pure a : Query α) :=
  fun _ hm => ⟨h, hm⟩

theorem Gives.mono {P' : α → Prop} {q : Query α} (h : Gives I P q) (hP : ∀ a, P a → P' a) :
    Gives I P' q :=
  fun m hm => ⟨hP _ (h m hm).1, (h m hm).2⟩

theorem Gives.bind {q : Query α} {f : α → Query β} (hq : Gives I P q)
    (hf : ∀ a, P a → Gives I Q (f a)) : Gives I Q (q >>= f) := by
  intro m hm
  obtain ⟨ha, hm'⟩ := hq m hm
  rw [run_bind]
  exact hf _ ha _ hm'

theorem Gives.ite {c : Prop} [Decidable c] {q r : Query α} (hq : c → Gives I P q)
    (hr : ¬ c → Gives I P r) : Gives I P (if c then q else r) := by
  by_cases h : c
  · simpa only [h, if_true] using hq h
  · simpa only [h, if_false] using hr h

/-- A loop gives what each round adds to what was given for the items before. -/
theorem Gives.foldlM {J : List α → β → Prop} {f : β → α → Query β} {l : List α}
    (hstep : ∀ done a b, a ∈ l → J done b → Gives I (J (done ++ [a])) (f b a))
    (done : List α) (b : β) (hb : J done b) : Gives I (J (done ++ l)) (l.foldlM f b) := by
  induction l generalizing done b with
  | nil => simpa using Gives.pure hb
  | cons a l ih =>
    rw [List.foldlM_cons, List.append_cons]
    refine Gives.bind (hstep done a b List.mem_cons_self hb) fun b' hb' => ?_
    exact ih (fun done a b ha => hstep done a b (List.mem_cons_of_mem _ ha)) _ b' hb'

theorem Preserves.pure (a : α) : Preserves I (Pure.pure a : Query α) := Gives.pure trivial

theorem Preserves.bind {q : Query α} {f : α → Query β} (hq : Preserves I q)
    (hf : ∀ a, Preserves I (f a)) : Preserves I (q >>= f) :=
  Gives.bind hq fun a _ => hf a

theorem Preserves.foldlM {f : β → α → Query β} (hf : ∀ b a, Preserves I (f b a)) (as : List α)
    (b : β) : Preserves I (as.foldlM f b) :=
  Gives.foldlM (J := fun _ _ => True) (fun _ a b _ _ => hf b a) [] b trivial

theorem Preserves.once {f : Facet} {d : Descriptor} {remembered : Memo → List (Descriptor × α)}
    {store : α → Memo → Memo} {circular : α} {compute : Query α} (hc : Preserves I compute)
    (henter : ∀ m, I m → I (m.enter f d)) (hstore : ∀ a m, I m → I (store a (m.leave f d))) :
    Preserves I (Query.once f d remembered store circular compute) := by
  intro m hm
  rw [once_run]
  cases (remembered m).lookup d with
  | some a => exact ⟨trivial, hm⟩
  | none =>
    cases m.isBusy f d with
    | true => exact ⟨trivial, hm⟩
    | false => exact ⟨trivial, hstore _ _ (hc _ (henter m hm)).2⟩

/-- The question leaves this part of the memo as it is. -/
def Keeps (part : Memo → γ) (q : Query α) : Prop := ∀ m : Memo, part (q.run m).2 = part m

theorem keeps_iff {part : Memo → γ} {q : Query α} :
    Keeps part q ↔ ∀ v, Preserves (fun m => part m = v) q :=
  ⟨fun h _ m hm => ⟨trivial, (h m).trans hm⟩, fun h m => (h (part m) m rfl).2⟩

theorem Keeps.pure {part : Memo → γ} (a : α) : Keeps part (Pure.pure a : Query α) := fun _ => rfl

theorem Keeps.bind {part : Memo → γ} {q : Query α} {f : α → Query β} (hq : Keeps part q)
    (hf : ∀ a, Keeps part (f a)) : Keeps part (q >>= f) :=
  keeps_iff.2 fun v => Preserves.bind (keeps_iff.1 hq v) fun a => keeps_iff.1 (hf a) v

end Query

namespace Memo

/-- The classes that are marked busy for a facet. -/
def busyWith (f : Facet) (m : Memo) : List Descriptor :=
  m.busy.filterMap fun e => if e.1 = f then some e.2 else none

theorem mem_busyWith {f : Facet} {m : Memo} {d : Descriptor} :
    d ∈ m.busyWith f ↔ m.isBusy f d = true := by
  simp only [busyWith, isBusy, List.mem_filterMap, List.contains_iff_mem]
  constructor
  · rintro ⟨⟨g, e⟩, hmem, he⟩
    split at he
    · next hg =>
      cases he
      exact (show g = f from hg) ▸ hmem
    · cases he
  · exact fun hmem => ⟨_, hmem, if_pos rfl⟩

theorem busyWith_enter (f : Facet) (m : Memo) (d : Descriptor) :
    (m.enter f d).busyWith f = d :: m.busyWith f := by
  simp [busyWith, enter]

theorem Grows.busyWith {m m' : Memo} (h : m.Grows m') (f : Facet) :
    m'.busyWith f = m.busyWith f := by
  simp only [Memo.busyWith, h.busy]

end Memo

/-! ## Tables finished from that of the class above -/

/-- A table that every class finishes from that of the class above. -/
structure TableKind (α : Type) where
  facet : Facet
  tables : Memo → List (Descriptor × Computed α)
  store : Descriptor → Computed α → Memo → Memo
  /-- What a class without one above it starts from. -/
  empty : α
  /-- Whether a missing class is replaced by Object. -/
  fallback : Bool
  finish : ClassPath → Computed α → ClassDef → Query (Computed α)

namespace TableKind

variable {α : Type} (k : TableKind α)

/-- The table that a class starts from. -/
def inherited (tableOf : Descriptor → Query (Except MissingClass (Computed α))) (c : ClassDef) :
    Query (Computed α) :=
  match c.superclass with
  | none => return ⟨k.empty, true⟩
  | some s => do
    match ← tableOf s with
    | .ok t => return t
    | .error _ =>
      if k.fallback = false ∨ s = Descriptor.object then return ⟨k.empty, false⟩
      else
        match ← tableOf Descriptor.object with
        | .ok t => return ⟨t.value, false⟩
        | .error _ => return ⟨k.empty, false⟩

/-- The table of a class, to a depth of `depth` definitions. -/
def within (p : ClassPath) : Nat → Descriptor → Query (Except MissingClass (Computed α))
  | 0, _ => return .ok ⟨k.empty, false⟩
  | depth + 1, d =>
    let d := p.tableOwner d
    match p.classDefinition d with
    | .error e => return .error e
    | .ok c => do
      let t ← Query.once k.facet d k.tables (k.store d) ⟨k.empty, false⟩ (do
        let inherited ← k.inherited (within p depth) c
        k.finish p inherited c)
      return .ok t

/-- The classes whose table is being computed. -/
def busy (m : Memo) : List Descriptor :=
  m.busy.filterMap fun e => if e.1 = k.facet then some e.2 else none

variable {k} in
theorem mem_busy {m : Memo} {d : Descriptor} : d ∈ k.busy m ↔ m.isBusy k.facet d = true :=
  Memo.mem_busyWith

theorem busy_enter (m : Memo) (d : Descriptor) : k.busy (m.enter k.facet d) = d :: k.busy m :=
  m.busyWith_enter k.facet d

/-- What is used of the parts of a table kind: `builds` says of a class what
    finishing makes of the table that it is given. -/
structure Lawful (p : ClassPath) (builds : ClassDef → α → α → Prop) : Prop where
  tables_store : ∀ d t m, k.tables (k.store d t m) = (d, t) :: k.tables m
  tables_marks : ∀ (m : Memo) busy, k.tables { m with busy := busy } = k.tables m
  finish_keeps : ∀ i c, Query.Keeps k.tables (k.finish p i c)
  finish_builds : ∀ i c m, builds c i.value ((k.finish p i c).run m).1.value

section Recorded

variable (p : ClassPath) (builds : ClassDef → α → α → Prop)

/-- What the class finishes its table from, going by the memo. -/
def Inherits (m : Memo) (d : Descriptor) (a : α) : Prop :=
  match p.above? k.fallback d with
  | none => a = k.empty
  | some s => ∃ t, (k.tables m).lookup s = some t ∧ t.value = a

/-- The remembered tables of settled classes are finished from what the memo
    says that they inherit. -/
def Recorded (m : Memo) : Prop :=
  ∀ d t, (k.tables m).lookup d = some t → p.Settled k.fallback d →
    ∃ c a, p.classDefinition d = .ok c ∧ k.Inherits p m d a ∧ builds c a t.value

/-- Circumstances in which a table is asked for: the busy classes are distinct,
    not yet remembered and below the class asked for, and the remaining depth
    suffices for the others. -/
structure Ready (n : Nat) (d : Descriptor) (m : Memo) : Prop where
  nodup : (k.busy m).Nodup
  defined : ∀ b ∈ k.busy m, p.hasTables b = true
  blank : ∀ b ∈ k.busy m, (k.tables m).lookup b = none
  below : ∀ b ∈ k.busy m, Relation.TransGen (p.Below k.fallback) b d
  depth : p.size + 2 ≤ n + (k.busy m).length

/-- What the class that is computed starts from, and the memo then. -/
structure Given (d : Descriptor) (m : Memo) (r : Computed α × Memo) : Prop where
  recorded : k.Recorded p builds r.2
  blank : ∀ b ∈ d :: k.busy m, (k.tables r.2).lookup b = none
  inherits : p.Settled k.fallback d → k.Inherits p r.2 d r.1.value

/-- What comes of asking for the table of `d`. -/
structure Outcome (d : Descriptor) (m : Memo) (r : Except MissingClass (Computed α) × Memo) :
    Prop where
  recorded : k.Recorded p builds r.2
  blank : ∀ b ∈ k.busy m, (k.tables r.2).lookup b = none
  answer : p.hasTables d = true → p.Settled k.fallback d →
    ∃ t, r.1 = .ok t ∧ (k.tables r.2).lookup d = some t

end Recorded

section Run

variable {k} {p : ClassPath} {builds : ClassDef → α → α → Prop} {n : Nat} {d o : Descriptor}
  {m m' : Memo} {c : ClassDef}

theorem Inherits.mono {a : α} (h : k.Inherits p m d a)
    (hm : ∀ d t, (k.tables m).lookup d = some t → (k.tables m').lookup d = some t) :
    k.Inherits p m' d a := by
  unfold Inherits at h ⊢
  cases hs : p.above? k.fallback d with
  | none => simpa only [hs] using h
  | some s =>
    simp only [hs] at h ⊢
    obtain ⟨t, ht, hv⟩ := h
    exact ⟨t, hm s t ht, hv⟩

theorem Recorded.congr (h : k.Recorded p builds m) (htables : k.tables m' = k.tables m) :
    k.Recorded p builds m' := by
  intro d t ht hd
  rw [htables] at ht
  obtain ⟨c, a, hc, ha, hb⟩ := h d t ht hd
  exact ⟨c, a, hc, ha.mono fun d t h => by rwa [htables], hb⟩

theorem Ready.not_busy (h : k.Ready p n d m) (hd : p.Settled k.fallback d) : d ∉ k.busy m :=
  fun hb => hd.not_above_self (h.below d hb)

/-- There is always depth left for two more classes. -/
theorem Ready.depth_left (h : k.Ready p n d m) : 2 ≤ n := by
  have hlen := ClassPath.length_le_size h.nodup h.defined
  have := h.depth
  omega

/-- The class above is asked for while the class itself is busy. -/
theorem Ready.enter (law : k.Lawful p builds) (h : k.Ready p (n + 1) o m)
    (ho : p.hasTables o = true) (hblank : (k.tables m).lookup o = none) (hfree : o ∉ k.busy m)
    {s : Descriptor} (hs : p.Below k.fallback o s) :
    k.Ready p n s (m.enter k.facet o) := by
  have htables : k.tables (m.enter k.facet o) = k.tables m := law.tables_marks m _
  refine ⟨?_, ?_, ?_, ?_, ?_⟩
  all_goals rw [busy_enter]
  · exact List.nodup_cons.2 ⟨hfree, h.nodup⟩
  · exact List.forall_mem_cons.2 ⟨ho, h.defined⟩
  · rw [htables]
    exact List.forall_mem_cons.2 ⟨hblank, h.blank⟩
  · exact List.forall_mem_cons.2
      ⟨Relation.TransGen.single hs, fun b hb => (h.below b hb).tail hs⟩
  · have := h.depth
    rw [List.length_cons]
    omega

theorem within_missing (hn : 0 < n) (hd : p.hasTables (p.tableOwner d) = false) :
    ∃ e, (k.within p n d).run m = (.error e, m) := by
  obtain ⟨n, rfl⟩ : ∃ n', n = n' + 1 := ⟨n - 1, by omega⟩
  unfold ClassPath.hasTables at hd
  cases hc : p.classDefinition (p.tableOwner d) with
  | ok c => simp [hc, Except.isOk, Except.toBool] at hd
  | error e =>
    refine ⟨e, ?_⟩
    simp only [within, hc]
    rfl

/-- What a question for a class does. -/
theorem within_run (hc : p.classDefinition (p.tableOwner d) = .ok c) :
    (k.within p (n + 1) d).run m =
      match (k.tables m).lookup (p.tableOwner d) with
      | some t => (.ok t, m)
      | none =>
        if m.isBusy k.facet (p.tableOwner d) then (.ok ⟨k.empty, false⟩, m)
        else
          let i := (k.inherited (k.within p n) c).run (m.enter k.facet (p.tableOwner d))
          let t := (k.finish p i.1 c).run i.2
          (.ok t.1, k.store (p.tableOwner d) t.1 (t.2.leave k.facet (p.tableOwner d))) := by
  simp only [within, hc]
  rw [Query.run_bind, Query.once_run]
  cases (k.tables m).lookup (p.tableOwner d) with
  | some t => rfl
  | none => cases m.isBusy k.facet (p.tableOwner d) <;> rfl

/-- A class that meets itself is given nothing. -/
theorem within_busy (hn : 0 < n) (hd : p.hasTables (p.tableOwner d) = true)
    (hbusy : p.tableOwner d ∈ k.busy m) (hblank : (k.tables m).lookup (p.tableOwner d) = none) :
    (k.within p n d).run m = (.ok ⟨k.empty, false⟩, m) := by
  obtain ⟨n, rfl⟩ : ∃ n', n = n' + 1 := ⟨n - 1, by omega⟩
  obtain ⟨c, hc⟩ := ClassPath.hasTables_iff.1 hd
  rw [within_run hc, hblank]
  simp only [mem_busy.1 hbusy, if_true]

theorem within_ok (hd : p.hasTables (p.tableOwner d) = true) :
    ∃ t, ((k.within p n d).run m).1 = .ok t := by
  obtain ⟨c, hc⟩ := ClassPath.hasTables_iff.1 hd
  cases n with
  | zero => exact ⟨_, rfl⟩
  | succ n =>
    rw [within_run hc]
    cases (k.tables m).lookup (p.tableOwner d) with
    | some t => exact ⟨t, rfl⟩
    | none => cases m.isBusy k.facet (p.tableOwner d) <;> exact ⟨_, rfl⟩

/-! What the class inherits, by what there is above it. -/

section Inherited

variable {tableOf : Descriptor → Query (Except MissingClass (Computed α))} {s : Descriptor}

theorem inherited_root (hs : c.superclass = none) :
    (k.inherited tableOf c).run m = (⟨k.empty, true⟩, m) := by
  simp only [inherited, hs]
  rfl

theorem inherited_super (hs : c.superclass = some s) {t : Computed α}
    (h : (tableOf s).run m = (.ok t, m')) : (k.inherited tableOf c).run m = (t, m') := by
  simp only [inherited, hs]
  rw [Query.run_bind, h]
  rfl

theorem inherited_nothing (hs : c.superclass = some s) {e : MissingClass}
    (h : (tableOf s).run m = (.error e, m'))
    (hstop : k.fallback = false ∨ s = Descriptor.object) :
    (k.inherited tableOf c).run m = (⟨k.empty, false⟩, m') := by
  simp only [inherited, hs]
  rw [Query.run_bind, h]
  simp only [hstop, if_true]
  rfl

theorem inherited_fallback (hs : c.superclass = some s) {e : MissingClass}
    (h : (tableOf s).run m = (.error e, m'))
    (hgo : ¬ (k.fallback = false ∨ s = Descriptor.object)) :
    (k.inherited tableOf c).run m =
      (match ((tableOf Descriptor.object).run m').1 with
        | .ok t => ⟨t.value, false⟩
        | .error _ => ⟨k.empty, false⟩, ((tableOf Descriptor.object).run m').2) := by
  simp only [inherited, hs]
  rw [Query.run_bind, h]
  simp only [hgo, if_false]
  rw [Query.run_bind]
  cases ((tableOf Descriptor.object).run m').1 <;> rfl

end Inherited

section Step

variable (law : k.Lawful p builds)
include law

theorem recorded_marks (h : k.Recorded p builds m) (marks : List (Facet × Descriptor)) :
    k.Recorded p builds { m with busy := marks } :=
  h.congr (law.tables_marks m marks)

variable (hm : k.Recorded p builds m) (hr : k.Ready p (n + 1) o m)
  (hblank : (k.tables m).lookup o = none)
include hm hr hblank

/-- Without a class above there is nothing to inherit. -/
theorem given_nothing (hnone : p.above? k.fallback o = none) (complete : Bool) :
    k.Given p builds o m (⟨k.empty, complete⟩, m.enter k.facet o) where
  recorded := recorded_marks law hm _
  blank := by
    rw [show k.tables (m.enter k.facet o) = k.tables m from law.tables_marks m _]
    exact List.forall_mem_cons.2 ⟨hblank, hr.blank⟩
  inherits _ := by
    unfold Inherits
    rw [hnone]

variable (hfree : o ∉ k.busy m) (hc : p.classDefinition o = .ok c)
  (ih : ∀ d m, k.Ready p n (p.tableOwner d) m → k.Recorded p builds m →
    k.Outcome p builds (p.tableOwner d) m ((k.within p n d).run m))
include hfree hc ih

/-- A class above, of which `s` is a name, leaves its table in the memo. -/
theorem given_above {s : Descriptor} (hs : p.hasTables (p.tableOwner s) = true)
    (hbelow : p.Below k.fallback o (p.tableOwner s)) {t : Computed α}
    (ht : ((k.within p n s).run (m.enter k.facet o)).1 = .ok t) (complete : Bool) :
    k.Given p builds o m
      (⟨t.value, complete⟩, ((k.within p n s).run (m.enter k.facet o)).2) := by
  have ho : p.hasTables o = true := ClassPath.hasTables_iff.2 ⟨c, hc⟩
  have hout := ih s _ (hr.enter law ho hblank hfree hbelow) (recorded_marks law hm _)
  refine ⟨hout.recorded, fun b hb => hout.blank b (by rwa [busy_enter]), fun hsettled => ?_⟩
  obtain ⟨t', ht', hlookup⟩ := hout.answer hs (hsettled.above hbelow)
  have heq : t' = t := Except.ok.inj (ht'.symm.trans ht)
  unfold Inherits
  rw [show p.above? k.fallback o = some (p.tableOwner s) from hbelow]
  exact ⟨t', hlookup, by rw [heq]⟩

/-- What Object stands in for, seen from the class. -/
theorem given_fallback (hnone : ∀ s, c.superclass = some s → p.hasTables (p.tableOwner s) = false)
    (hsuper : c.superclass ≠ none) (hf : k.fallback = true) :
    k.Given p builds o m
      (match ((k.within p n Descriptor.object).run (m.enter k.facet o)).1 with
        | .ok t => ⟨t.value, false⟩
        | .error _ => ⟨k.empty, false⟩,
      ((k.within p n Descriptor.object).run (m.enter k.facet o)).2) := by
  have hn : 0 < n := by
    have := hr.depth_left
    omega
  obtain ⟨s, hs⟩ := Option.ne_none_iff_exists'.1 hsuper
  have hs' := hnone s hs
  have howner := ClassPath.tableOwner_object (p := p)
  by_cases hobject : p.hasTables Descriptor.object = true
  · obtain ⟨t, ht⟩ := within_ok (k := k) (n := n) (m := m.enter k.facet o)
      (show p.hasTables (p.tableOwner Descriptor.object) = true by rwa [howner])
    by_cases ho : o = Descriptor.object
    -- Object itself is busy, and is given nothing
    · subst ho
      have hempty := given_nothing law hm hr hblank
        (by simp [ClassPath.above?, hc, hs, hs']) false
      have hbusy : Descriptor.object ∈ k.busy (m.enter k.facet Descriptor.object) := by
        rw [busy_enter]
        exact List.mem_cons_self
      rw [within_busy (d := Descriptor.object) hn (by rwa [howner]) (by rwa [howner])
        (by rw [howner]; exact hempty.blank _ List.mem_cons_self)]
      exact hempty
    · rw [ht]
      refine given_above law hm hr hblank hfree hc ih (by rwa [howner]) ?_ ht false
      simp [ClassPath.Below, ClassPath.above?, hc, hs, hs', hf, ho, hobject, howner]
  · have hobject' : p.hasTables Descriptor.object = false := by simpa using hobject
    obtain ⟨e, he⟩ := within_missing (k := k) (m := m.enter k.facet o) (d := Descriptor.object)
      hn (by rwa [howner])
    rw [he]
    exact given_nothing law hm hr hblank
      (by simp [ClassPath.above?, hc, hs, hs', hobject']) false

theorem inherited_given :
    k.Given p builds o m ((k.inherited (k.within p n) c).run (m.enter k.facet o)) := by
  cases hsuper : c.superclass with
  | none =>
    rw [inherited_root hsuper]
    exact given_nothing law hm hr hblank (by simp [ClassPath.above?, hc, hsuper]) true
  | some s =>
    by_cases hs : p.hasTables (p.tableOwner s) = true
    · obtain ⟨t, ht⟩ := within_ok (k := k) (n := n) (m := m.enter k.facet o) hs
      rw [inherited_super hsuper (Prod.ext ht rfl)]
      exact given_above law hm hr hblank hfree hc ih hs
        (ClassPath.below_superclass hc hsuper hs _) ht t.complete
    · have hs' : p.hasTables (p.tableOwner s) = false := by simpa using hs
      obtain ⟨e, he⟩ := within_missing (k := k) (n := n) (m := m.enter k.facet o)
        (by have := hr.depth_left; omega) hs'
      by_cases hstop : k.fallback = false ∨ s = Descriptor.object
      · rw [inherited_nothing hsuper he hstop]
        refine given_nothing law hm hr hblank ?_ false
        rcases hstop with hf | rfl
        · simp [ClassPath.above?, hc, hsuper, hs', hf]
        · rw [ClassPath.tableOwner_object] at hs'
          simp [ClassPath.above?, hc, hsuper, hs', ClassPath.tableOwner_object]
      · rw [inherited_fallback hsuper he hstop]
        have hf : k.fallback = true := by simpa using (not_or.1 hstop).1
        refine given_fallback law hm hr hblank hfree hc ih ?_ (by simp [hsuper]) hf
        intro s' hs''
        rw [hsuper] at hs''
        exact Option.some.inj hs'' ▸ hs'

end Step

/-- Finishing the table and storing it: the new entry is in nobody's way, for the
    class had none. -/
theorem Given.finished (law : k.Lawful p builds) (hfree : o ∉ k.busy m)
    (hc : p.classDefinition o = .ok c) {i : Computed α × Memo} (h : k.Given p builds o m i) :
    k.Outcome p builds o m (.ok ((k.finish p i.1 c).run i.2).1,
      k.store o ((k.finish p i.1 c).run i.2).1
        (((k.finish p i.1 c).run i.2).2.leave k.facet o)) := by
  have hbuilt := law.finish_builds i.1 c i.2
  have hfinish := law.finish_keeps i.1 c i.2
  generalize (k.finish p i.1 c).run i.2 = r at hbuilt hfinish
  have htables : k.tables (k.store o r.1 (r.2.leave k.facet o)) = (o, r.1) :: k.tables i.2 := by
    rw [law.tables_store]
    exact congrArg _ ((law.tables_marks _ _).trans hfinish)
  have hkept : ∀ d t, (k.tables i.2).lookup d = some t →
      (k.tables (k.store o r.1 (r.2.leave k.facet o))).lookup d = some t := by
    rw [htables]
    exact Memo.Grows.lookup_cons r.1 (fun _ _ h => h) (h.blank o List.mem_cons_self)
  refine ⟨fun e t ht hs => ?_, fun b hb => ?_, fun _ _ => ⟨_, rfl, ?_⟩⟩
  · rw [htables] at ht
    by_cases heo : e = o
    · subst heo
      rw [List.lookup_cons_self] at ht
      cases ht
      exact ⟨c, i.1.value, hc, (h.inherits hs).mono hkept, hbuilt⟩
    · rw [List.lookup_cons, show (e == o) = false by simpa using heo] at ht
      obtain ⟨c', a, hc', ha, hb⟩ := h.recorded e t ht hs
      exact ⟨c', a, hc', ha.mono hkept, hb⟩
  · have hbo : b ≠ o := fun h => hfree (h ▸ hb)
    rw [htables, List.lookup_cons, show (b == o) = false by simpa using hbo]
    exact h.blank b (List.mem_cons_of_mem _ hb)
  · rw [htables, List.lookup_cons_self]

/-- Every question keeps the record, and answers for a settled class. -/
theorem within_outcome (law : k.Lawful p builds) (hr : k.Ready p n (p.tableOwner d) m)
    (hm : k.Recorded p builds m) :
    k.Outcome p builds (p.tableOwner d) m ((k.within p n d).run m) := by
  induction n generalizing d m with
  | zero =>
    have := hr.depth_left
    omega
  | succ n ih =>
    generalize ho : p.tableOwner d = o at hr
    by_cases hd : p.hasTables o = true
    · obtain ⟨c, hc⟩ := ClassPath.hasTables_iff.1 hd
      rw [within_run (ho ▸ hc), ho]
      cases hblank : (k.tables m).lookup o with
      | some t => exact ⟨hm, hr.blank, fun _ _ => ⟨t, rfl, hblank⟩⟩
      | none =>
        cases hbusy : m.isBusy k.facet o with
        | true =>
          exact ⟨hm, hr.blank, fun _ hs => absurd (mem_busy.2 hbusy) (hr.not_busy hs)⟩
        | false =>
          have hfree : o ∉ k.busy m := fun hmem => by simp [mem_busy.1 hmem] at hbusy
          have hgiven := inherited_given law hm hr hblank hfree hc fun _ _ => ih
          simp only [Bool.false_eq_true, if_false]
          exact hgiven.finished law hfree hc
    · obtain ⟨e, he⟩ := within_missing (k := k) (n := n + 1) (m := m) (Nat.succ_pos n)
        (show p.hasTables (p.tableOwner d) = false by simpa [ho] using hd)
      rw [he]
      exact ⟨hm, hr.blank, fun h => absurd h hd⟩

/-- What is remembered is the answer. -/
theorem within_remembered (hd : p.hasTables (p.tableOwner d) = true) {t : Computed α}
    (ht : (k.tables m).lookup (p.tableOwner d) = some t) :
    (k.within p (n + 1) d).run m = (.ok t, m) := by
  obtain ⟨c, hc⟩ := ClassPath.hasTables_iff.1 hd
  rw [within_run hc, ht]

theorem Ready.idle (hm : m.busy = []) (d : Descriptor) : k.Ready p (p.size + 2) d m := by
  have hbusy : k.busy m = [] := by simp [busy, hm]
  constructor <;> simp [hbusy]

/-- The question leaves alone what the marks of its own facet, its own tables and
    the finishing of a table leave alone. -/
theorem within_preserves {I : Memo → Prop} (henter : ∀ d m, I m → I (m.enter k.facet d))
    (hstore : ∀ d t m, I m → I (k.store d t (m.leave k.facet d)))
    (hf : ∀ i c, Query.Preserves I (k.finish p i c)) (n : Nat) (d : Descriptor) :
    Query.Preserves I (k.within p n d) := by
  induction n generalizing d with
  | zero => exact Query.Preserves.pure _
  | succ n ih =>
    simp only [within]
    split
    · exact Query.Preserves.pure _
    · refine Query.Preserves.bind (Query.Preserves.once ?_ (henter _) (hstore _))
        fun _ => Query.Preserves.pure _
      refine Query.Preserves.bind ?_ fun i => hf i _
      simp only [inherited]
      split
      · exact Query.Preserves.pure _
      · refine Query.Preserves.bind (ih _) fun r => ?_
        split
        · exact Query.Preserves.pure _
        · refine Query.Gives.ite (fun _ => Query.Preserves.pure _) fun _ => ?_
          refine Query.Preserves.bind (ih _) fun r => ?_
          split <;> exact Query.Preserves.pure _

/-- The question touches only its own tables. -/
theorem within_keeps {γ : Type} (part : Memo → γ)
    (hmarks : ∀ (m : Memo) busy, part { m with busy := busy } = part m)
    (hs : ∀ d t m, part (k.store d t m) = part m)
    (hf : ∀ i c, Query.Keeps part (k.finish p i c)) (n : Nat) (d : Descriptor) :
    Query.Keeps part (k.within p n d) :=
  Query.keeps_iff.2 fun v => within_preserves (fun _ m hm => (hmarks m _).trans hm)
    (fun d t m hm => (hs d t _).trans ((hmarks m _).trans hm))
    (fun i c => Query.keeps_iff.1 (hf i c) v) n d

end Run

end TableKind

end SymbolicDex
