import SymbolicDex.Proofs.Hierarchy.FieldPacking
import SymbolicDex.Proofs.Hierarchy.MemberOrder
import SymbolicDex.Proofs.Hierarchy.TableHistory

/- Layouts under subclassing. The layout of a settled class is the same after
   every history, since it is made of definitions alone.

   What is proved:
     1. `layout_handed`, `layout_packed`: the layout of a settled class has what
        layouts hand down; so no two fields of it overlap.
     2. `layout_unique`: it is the same in any two memos.
     3. `layout_extends_superclass`: a class keeps the offsets of its superclass,
        adds each of its own fields once, and lets none overlap, on every
        runtime and after every history. -/
namespace SymbolicDex

namespace ClassPath

open FieldLayout

variable {p : ClassPath} {m m' : Memo} {d s : Descriptor} {c : ClassDef}
  {l l' : Computed FieldLayout}

/-- What the record says of one layout. -/
theorem Orderly.layout_built (h : p.Orderly m) (hd : p.Settled false d)
    (hl : m.layouts.lookup d = some l) :
    ∃ c a, p.classDefinition d = .ok c ∧ TableKind.layout.Inherits p m d a ∧
      l.value = p.layoutOver a c :=
  h.layouts d l hl hd

/-- What a class has from the layout above it, settled classes have. -/
theorem layout_handed {P : FieldLayout → Prop} (hempty : P FieldLayout.empty)
    (hover : ∀ a c, P a → P (p.layoutOver a c)) (h : p.Orderly m) (hd : p.Settled false d)
    (hl : m.layouts.lookup d = some l) : ∃ a c, P a ∧ l.value = p.layoutOver a c := by
  induction hd generalizing l with
  | intro d hacc ih =>
    obtain ⟨c, a, hc, ha, hbuilt⟩ := h.layout_built (Acc.intro d hacc) hl
    refine ⟨a, c, ?_, hbuilt⟩
    unfold TableKind.Inherits at ha
    cases habove : p.above? TableKind.layout.fallback d with
    | none =>
      rw [habove] at ha
      rw [show a = FieldLayout.empty from ha]
      exact hempty
    | some s =>
      rw [habove] at ha
      obtain ⟨ls, hls, rfl⟩ := ha
      obtain ⟨a', c', ha', heq⟩ := ih s habove hls
      rw [heq]
      exact hover a' c' ha'

theorem layout_packed (h : p.Orderly m) (hd : p.Settled false d)
    (hl : m.layouts.lookup d = some l) : Packed p.fieldSize l.value.fields := by
  obtain ⟨a, c, ha, heq⟩ := layout_handed (P := fun a => Packed p.fieldSize a.fields)
    List.Pairwise.nil (fun a c ha => (p.layoutOver_extends c ha).packed) h hd hl
  rw [heq]
  exact (p.layoutOver_extends c ha).packed

/-- A class with a rooted superclass chain has its layout over one with what layouts
    hand down. -/
theorem Rooted.layout_over {P : FieldLayout → Prop} (hd : p.Rooted d)
    (hempty : P FieldLayout.empty) (hover : ∀ a c, P a → P (p.layoutOver a c))
    (history : List (Facet × Descriptor)) :
    ∃ l a c, ((p.layout d).run (p.memoAfter history)).1 = .ok l ∧ P a ∧
      l.value = p.layoutOver a c := by
  have horderly := p.orderly_after history
  obtain ⟨l, hl, hlookup⟩ :=
    (horderly.layout_outcome d).answer hd.hasTables (hd.settled false)
  obtain ⟨a, c, ha, heq⟩ :=
    layout_handed hempty hover (horderly.layout d) (hd.settled false) hlookup
  exact ⟨l, a, c, hl, ha, heq⟩

theorem layout_unique (h : p.Orderly m) (h' : p.Orderly m') (hd : p.Settled false d)
    (hl : m.layouts.lookup d = some l) (hl' : m'.layouts.lookup d = some l') :
    l.value = l'.value := by
  induction hd generalizing l l' with
  | intro d hacc ih =>
    obtain ⟨c, a, hc, ha, hbuilt⟩ := h.layout_built (Acc.intro d hacc) hl
    obtain ⟨c', a', hc', ha', hbuilt'⟩ := h'.layout_built (Acc.intro d hacc) hl'
    have hcc : c = c' := Except.ok.inj (hc.symm.trans hc')
    -- both start from the same: nothing, or the one layout of the class above
    have haa : a = a' := by
      unfold TableKind.Inherits at ha ha'
      cases habove : p.above? TableKind.layout.fallback d with
      | none =>
        rw [habove] at ha ha'
        exact ha.trans ha'.symm
      | some s =>
        rw [habove] at ha ha'
        obtain ⟨ls, hls, rfl⟩ := ha
        obtain ⟨ls', hls', rfl⟩ := ha'
        exact ih s habove hls hls'
    rw [hbuilt, hbuilt', hcc, haa]

/-- What the record says of a layout and the one of the class above. -/
theorem Orderly.layout_above (h : p.Orderly m) (hd : p.Settled false d)
    (hs : p.Below false d s) (hl : m.layouts.lookup d = some l) :
    ∃ ls, m.layouts.lookup s = some ls ∧
      ∀ offset f, ls.value.fieldAt? offset = some f → l.value.fieldAt? offset = some f := by
  obtain ⟨c, a, -, ha, hbuilt⟩ := h.layout_built hd hl
  unfold TableKind.Inherits at ha
  rw [show p.above? TableKind.layout.fallback d = some s from hs] at ha
  obtain ⟨ls, hls, rfl⟩ := ha
  have hpacked := layout_packed h (hd.above hs) hls
  have hext := p.layoutOver_extends c hpacked
  rw [← hbuilt] at hext
  exact ⟨ls, hls, fun offset f => hext.kept p.fieldSize_pos hpacked⟩

/-- What the layout of a class with a rooted superclass chain starts from. -/
theorem Rooted.layout_inherits (hd : p.Rooted d) (hc : p.classDefinition d = .ok c)
    {a : FieldLayout} (ha : TableKind.layout.Inherits p m d a) :
    match c.superclass with
    | none => a = FieldLayout.empty
    | some s => p.Rooted s ∧ ∃ ls, m.layouts.lookup (p.tableOwner s) = some ls ∧ ls.value = a := by
  unfold TableKind.Inherits at ha
  cases hs : c.superclass with
  | none =>
    simp only [above?, hc, hs] at ha
    exact ha
  | some s =>
    have habove := hd.above hc hs
    have hbelow := below_superclass hc hs habove.hasTables TableKind.layout.fallback
    rw [show p.above? TableKind.layout.fallback d = _ from hbelow] at ha
    exact ⟨habove, ha⟩

/-- A class keeps the offsets of its superclass, has besides them each of its own
    instance fields once, and no two of its fields overlap: every field ends
    before the next one starts. -/
theorem layout_extends_superclass (p : ClassPath) (history : List (Facet × Descriptor))
    {d : Descriptor} {c : ClassDef} (hc : p.classDefinition d = .ok c) (hd : p.Rooted d) :
    ∃ l inherited : Computed FieldLayout,
      ((p.layout d).run (p.memoAfter history)).1 = .ok l ∧
      (match c.superclass with
        | none => inherited.value = FieldLayout.empty
        | some s => ((p.layout s).run (p.memoAfter history)).1 = .ok inherited) ∧
      (∀ offset f, inherited.value.fieldAt? offset = some f → l.value.fieldAt? offset = some f) ∧
      (∃ new : List (Nat × FieldRef), l.value.fields.Perm (new ++ inherited.value.fields) ∧
        (new.map (·.2)).Perm (c.instanceFields.map (·.ref d))) ∧
      l.value.fields.Pairwise fun a b => a.1 + p.fieldSize a.2.type ≤ b.1 := by
  have horderly := p.orderly_after history
  generalize p.memoAfter history = m at horderly
  have howner := tableOwner_of_classDefinition hc
  have hout := horderly.layout_outcome d
  rw [howner] at hout
  obtain ⟨l, hl, hlookup⟩ := hout.answer (howner ▸ hd.hasTables) (howner ▸ hd.settled false)
  have horderly' := horderly.layout d
  obtain ⟨c', a, hc', ha, hbuilt⟩ := horderly'.layout_built (howner ▸ hd.settled false) hlookup
  obtain rfl : c' = c := Except.ok.inj (hc'.symm.trans hc)
  have hname : c'.descriptor = d := definition?_descriptor (definition?_of_classDefinition hc)
  -- the layout started from is that of the superclass, also when it is asked for first
  obtain ⟨inherited, hsuper, hvalue, hpacked⟩ : ∃ inherited : Computed FieldLayout,
      (match c'.superclass with
        | none => inherited.value = FieldLayout.empty
        | some s => ((p.layout s).run m).1 = .ok inherited) ∧
      inherited.value = a ∧ Packed p.fieldSize a.fields := by
    have hstart := hd.layout_inherits hc ha
    cases hs : c'.superclass with
    | none =>
      simp only [hs] at hstart ⊢
      subst hstart
      exact ⟨⟨FieldLayout.empty, true⟩, rfl, rfl, List.Pairwise.nil⟩
    | some s =>
      simp only [hs] at hstart ⊢
      obtain ⟨habove, ls, hls, rfl⟩ := hstart
      obtain ⟨ls', hls', hlookup'⟩ :=
        (horderly.layout_outcome s).answer habove.hasTables (habove.settled false)
      refine ⟨ls', hls', ?_, layout_packed horderly' (habove.settled false) hls⟩
      exact layout_unique (horderly.layout s) horderly' (habove.settled false) hlookup' hls
  have hext := p.layoutOver_extends c' hpacked
  rw [← hbuilt, hname] at hext
  subst hvalue
  exact ⟨l, inherited, hl, hsuper, fun offset f => hext.kept p.fieldSize_pos hpacked, hext.fields,
    hext.packed⟩

end ClassPath

/-! ## A class with gaps -/

namespace Sample

def root : ClassDef :=
  { descriptor := Descriptor.object, access := ⟨1⟩, superclass := none
    fields := [⟨"locked", "Z", ⟨2⟩⟩] }

/-- Its reference leaves a gap behind the field of the root. -/
def account : ClassDef :=
  { descriptor := "LAccount;", access := ⟨1⟩, superclass := some Descriptor.object
    fields := [⟨"owner", "Ljava/lang/String;", ⟨2⟩⟩, ⟨"balance", "J", ⟨2⟩⟩,
      ⟨"count", "I", ⟨10⟩⟩, ⟨"open", "Z", ⟨2⟩⟩] }

/-- A class path of Android 6. -/
def accounts : ClassPath := ⟨⟨23, noArt⟩, [⟨[root, account]⟩], ⟨[]⟩⟩

def rootLayout : FieldLayout := ⟨[(0, ⟨Descriptor.object, "locked", "Z"⟩)], 1⟩

/-- The last field is in the gap. -/
def accountLayout : FieldLayout :=
  ⟨[(0, ⟨Descriptor.object, "locked", "Z"⟩), (1, ⟨"LAccount;", "open", "Z"⟩),
    (4, ⟨"LAccount;", "owner", "Ljava/lang/String;"⟩), (8, ⟨"LAccount;", "balance", "J"⟩)], 16⟩

theorem layout_root (v : ArtLayout) :
    ArtLayout.layout v Descriptor.object .empty root.instanceFields = rootLayout := by
  cases v <;> decide +kernel

theorem layout_account :
    ArtLayout.layout .legacy "LAccount;" rootLayout account.instanceFields = accountLayout := by
  have hsorted : (account.instanceFields.mergeSort fun a b =>
      (ArtLayout.order .legacy a b).isLE) =
      [⟨"owner", "Ljava/lang/String;", ⟨2⟩⟩, ⟨"balance", "J", ⟨2⟩⟩, ⟨"open", "Z", ⟨2⟩⟩] :=
    mergeSort_eq_of_ascending (by decide +kernel) (by decide +kernel)
  unfold ArtLayout.layout
  rw [hsorted]
  decide +kernel

end Sample

open Sample in
theorem account_extends_root :
    accounts.classDefinition "LAccount;" = .ok account ∧ accounts.Rooted "LAccount;" ∧
      ((accounts.layout "LAccount;").run (accounts.memoAfter [])).1 = .ok ⟨accountLayout, true⟩ ∧
      ((accounts.layout Descriptor.object).run (accounts.memoAfter [])).1 =
        .ok ⟨rootLayout, true⟩ ∧
      ∃ l inherited : Computed FieldLayout,
        ((accounts.layout "LAccount;").run (accounts.memoAfter [])).1 = .ok l ∧
        ((accounts.layout Descriptor.object).run (accounts.memoAfter [])).1 = .ok inherited ∧
        (∀ offset f, inherited.value.fieldAt? offset = some f →
          l.value.fieldAt? offset = some f) ∧
        (∃ new : List (Nat × FieldRef), l.value.fields.Perm (new ++ inherited.value.fields) ∧
          (new.map (·.2)).Perm (account.instanceFields.map (·.ref "LAccount;"))) ∧
        l.value.fields.Pairwise fun a b => a.1 + accounts.fieldSize a.2.type ≤ b.1 := by
  have hc : accounts.classDefinition "LAccount;" = .ok account := by decide +kernel
  have hd : accounts.Rooted "LAccount;" := by
    refine .under (c := account) (s := Descriptor.object) (by decide +kernel) rfl ?_
    exact .root (c := root) (by decide +kernel) rfl
  have hroot : ((accounts.layout Descriptor.object).run (accounts.memoAfter [])).1 =
      .ok ⟨rootLayout, true⟩ := by
    rw [← layout_root .legacy]
    rfl
  have haccount : ((accounts.layout "LAccount;").run (accounts.memoAfter [])).1 =
      .ok ⟨accountLayout, true⟩ := by
    rw [← layout_account, ← layout_root .legacy]
    rfl
  exact ⟨hc, hd, haccount, hroot, accounts.layout_extends_superclass [] hc hd⟩

end SymbolicDex
