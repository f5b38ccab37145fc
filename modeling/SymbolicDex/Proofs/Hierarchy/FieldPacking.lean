import SymbolicDex.Hierarchy.Tables
import Mathlib.Data.List.Perm.Basic
import Mathlib.Data.List.Pairwise

/- What the packing algorithms do to a layout. Whatever the runtime, the
   layout of a class comes from that of its superclass by putting the fields of
   the class, each once, into byte ranges that were free (`FieldLayout.Extends`).

   What is proved:
     1. `insertAt_perm`, `insertAt_packed`: a field put into a free range
        replaces nothing and overlaps nothing.
     2. `DalvikLayout.ordered_perm`, `DalvikLayout.place_extends`: the swaps
        only reorder the fields, and each is placed behind all others.
     3. `ArtLayout.State.Sound`: below the offset, every byte belongs to at most
        one field or gap. Each step of the three ART loops keeps this, so the
        whole passes do (`placeReferences_placed`, `placePass_placed`).
     4. `ClassPath.layoutOver_extends`: the layout of a class extends the one
        that it inherits, under every strategy. -/
namespace SymbolicDex

namespace FieldLayout

variable {size : Descriptor → Nat} {fields : List (Nat × FieldRef)} {owner : Descriptor}

/-- Fields by ascending offset, each ending before the next one starts. -/
def Packed (size : Descriptor → Nat) (fields : List (Nat × FieldRef)) : Prop :=
  fields.Pairwise fun a b => a.1 + size a.2.type ≤ b.1

/-- No field has a byte among the `count` from `offset` on. -/
def Free (size : Descriptor → Nat) (fields : List (Nat × FieldRef)) (offset count : Nat) : Prop :=
  ∀ e ∈ fields, e.1 + size e.2.type ≤ offset ∨ offset + count ≤ e.1

/-- Every field ends at `offset` or before. -/
def Below (size : Descriptor → Nat) (fields : List (Nat × FieldRef)) (offset : Nat) : Prop :=
  ∀ e ∈ fields, e.1 + size e.2.type ≤ offset

theorem Below.free {offset start : Nat} (h : Below size fields offset) (hs : offset ≤ start)
    (count : Nat) : Free size fields start count :=
  fun e he => .inl (Nat.le_trans (h e he) hs)

/-! ## Putting in one field -/

section Insert

variable {offset : Nat} {f : FieldRef} (hpos : ∀ d, 0 < size d)
include hpos

/-- Nothing is replaced: a field at the same offset would have a byte there. -/
theorem insertAt_perm (hfree : Free size fields offset (size f.type)) :
    (insertAt offset f fields).Perm ((offset, f) :: fields) := by
  induction fields with
  | nil => exact List.Perm.refl _
  | cons e es ih =>
    have hsize := hpos e.2.type
    have hsize' := hpos f.type
    have hne : offset ≠ e.1 := by
      have := hfree e List.mem_cons_self
      omega
    by_cases hlt : offset < e.1
    · simp only [insertAt, hlt, if_true]
      exact List.Perm.refl _
    · simp only [insertAt, hlt, hne, if_false]
      have htail := ih fun x hx => hfree x (List.mem_cons_of_mem _ hx)
      exact (htail.cons e).trans (List.Perm.swap _ _ _)

theorem insertAt_packed (hp : Packed size fields)
    (hfree : Free size fields offset (size f.type)) :
    Packed size (insertAt offset f fields) := by
  induction fields with
  | nil => exact List.pairwise_singleton _ _
  | cons e es ih =>
    obtain ⟨hhead, htail⟩ := List.pairwise_cons.1 hp
    have hsize := hpos e.2.type
    have hsize' := hpos f.type
    have he := hfree e List.mem_cons_self
    have hfree' : Free size es offset (size f.type) :=
      fun x hx => hfree x (List.mem_cons_of_mem _ hx)
    have hne : offset ≠ e.1 := by omega
    by_cases hlt : offset < e.1
    · simp only [insertAt, hlt, if_true]
      refine List.pairwise_cons.2 ⟨fun x hx => ?_, hp⟩
      -- the range ends before the first field behind it, hence before all
      rcases List.mem_cons.1 hx with rfl | hx
      · dsimp only
        omega
      · have := hhead x hx
        dsimp only
        omega
    · simp only [insertAt, hlt, hne, if_false]
      refine List.pairwise_cons.2 ⟨fun x hx => ?_, ih htail hfree'⟩
      rcases List.mem_cons.1 ((insertAt_perm hpos hfree').mem_iff.1 hx) with rfl | hx
      · dsimp only
        omega
      · exact hhead x hx

/-- In a packed layout an offset leads to the field that starts there. -/
theorem fieldAt?_eq_some {l : FieldLayout} (hp : Packed size l.fields) :
    l.fieldAt? offset = some f ↔ (offset, f) ∈ l.fields := by
  obtain ⟨fields, n⟩ := l
  unfold fieldAt?
  dsimp only at hp ⊢
  induction fields with
  | nil => simp
  | cons e es ih =>
    obtain ⟨hhead, htail⟩ := List.pairwise_cons.1 hp
    have hsize := hpos e.2.type
    by_cases he : e.1 = offset
    · rw [List.find?_cons_of_pos (by simpa using he)]
      have hes : (offset, f) ∉ es := by
        intro hmem
        have := hhead _ hmem
        dsimp only at this
        omega
      obtain ⟨o, g⟩ := e
      dsimp only at he
      subst he
      simp [hes, eq_comm]
    · rw [List.find?_cons_of_neg (by simpa using he), ih htail, List.mem_cons]
      have hne : (offset, f) ≠ e := by
        rintro rfl
        exact he rfl
      simp [hne]

end Insert

/-- The last field of a packed layout ends last. -/
theorem below_lastEnd {l : FieldLayout} (hp : Packed size l.fields) (start : Nat) :
    Below size l.fields ((l.lastEnd? size).getD start) := by
  rcases List.eq_nil_or_concat l.fields with hnil | ⟨init, last, hlast⟩
  · intro e he
    simp [hnil] at he
  · rw [List.concat_eq_append] at hlast
    have hend : (l.lastEnd? size).getD start = last.1 + size last.2.type := by
      simp [lastEnd?, hlast]
    rw [hend]
    intro e he
    unfold Packed at hp
    rw [hlast, List.pairwise_append] at hp
    rw [hlast, List.mem_append, List.mem_singleton] at he
    rcases he with he | rfl
    · have := hp.2.2 e he last (List.mem_singleton.2 rfl)
      omega
    · exact Nat.le_refl _

/-! ## Extending a layout -/

/-- `l'` has the fields of `l` where they were and besides them the fields
    `own` of a class, each once; no two of its fields overlap. -/
structure Extends (size : Descriptor → Nat) (owner : Descriptor) (own : List FieldDef)
    (l l' : FieldLayout) : Prop where
  packed : Packed size l'.fields
  fields : ∃ new : List (Nat × FieldRef), l'.fields.Perm (new ++ l.fields) ∧
    (new.map (·.2)).Perm (own.map (·.ref owner))

namespace Extends

theorem refl {l : FieldLayout} (hp : Packed size l.fields) : Extends size owner [] l l :=
  ⟨hp, [], List.Perm.refl _, List.Perm.refl _⟩

theorem insert {l : FieldLayout} (hpos : ∀ d, 0 < size d) (hp : Packed size l.fields)
    {offset : Nat} (f : FieldDef) (hfree : Free size l.fields offset (size f.type)) :
    Extends size owner [f] l (l.insert offset (f.ref owner)) where
  packed := insertAt_packed hpos hp hfree
  fields := ⟨[(offset, f.ref owner)], insertAt_perm hpos hfree, List.Perm.refl _⟩

theorem trans {own own' : List FieldDef} {l l' l'' : FieldLayout}
    (h : Extends size owner own l l') (h' : Extends size owner own' l' l'') :
    Extends size owner (own ++ own') l l'' := by
  obtain ⟨new, hnew, hown⟩ := h.fields
  obtain ⟨new', hnew', hown'⟩ := h'.fields
  refine ⟨h'.packed, new' ++ new, ?_, ?_⟩
  · calc l''.fields.Perm (new' ++ l'.fields) := hnew'
      List.Perm _ (new' ++ (new ++ l.fields)) := hnew.append_left new'
      List.Perm _ (new' ++ new ++ l.fields) := by rw [List.append_assoc]
  · rw [List.map_append, List.map_append]
    exact (hown'.append hown).trans List.perm_append_comm

theorem perm {own own' : List FieldDef} {l l' : FieldLayout} (h : Extends size owner own l l')
    (hp : own.Perm own') : Extends size owner own' l l' := by
  obtain ⟨new, hnew, hown⟩ := h.fields
  exact ⟨h.packed, new, hnew, hown.trans (hp.map _)⟩

/-- The size of an instance is no matter. -/
theorem withSize {own : List FieldDef} {l l' : FieldLayout} (h : Extends size owner own l l')
    (n : Nat) : Extends size owner own l { l' with size := n } :=
  ⟨h.packed, h.fields⟩

/-- Inherited fields keep their offsets. -/
theorem kept {own : List FieldDef} {l l' : FieldLayout} (hpos : ∀ d, 0 < size d)
    (hl : Packed size l.fields) (h : Extends size owner own l l') {offset : Nat} {f : FieldRef}
    (hf : l.fieldAt? offset = some f) : l'.fieldAt? offset = some f := by
  obtain ⟨new, hnew, -⟩ := h.fields
  have hmem := (fieldAt?_eq_some hpos hl).1 hf
  exact (fieldAt?_eq_some hpos h.packed).2 (hnew.mem_iff.2 (List.mem_append_right _ hmem))

end Extends

end FieldLayout

open FieldLayout

/-! ## Dalvik -/

namespace DalvikLayout

theorem fieldSize_pos (d : Descriptor) : 0 < fieldSize d := by
  unfold fieldSize
  split <;> decide

theorem refill_perm {α : Type} (p : α → Bool) (xs supply : List α)
    (h : (xs.filter p).length = supply.length) :
    (refill p xs supply).Perm (xs.filter (!p ·) ++ supply) := by
  induction xs generalizing supply with
  | nil =>
    have : supply = [] := by simpa using h.symm
    simp [refill, this]
  | cons x xs ih =>
    cases hx : p x with
    | false =>
      simp only [hx, Bool.false_eq_true, not_false_iff, List.filter_cons_of_neg] at h
      simpa [refill, hx] using ih supply h
    | true =>
      cases supply with
      | nil => simp [hx] at h
      | cons y ys =>
        have hlen : (xs.filter p).length = ys.length := by simpa [hx] using h
        simp only [refill, hx, if_true, Bool.not_true, Bool.false_eq_true, not_false_iff,
          List.filter_cons_of_neg]
        exact ((ih ys hlen).cons y).trans List.perm_middle.symm

/-- As many elements do not belong in front as are missing there. -/
theorem misplaced_length {α : Type} (p : α → Bool) (xs : List α) :
    ((xs.take (xs.filter p).length).filter (!p ·)).length =
      ((xs.drop (xs.filter p).length).reverse.filter p).length := by
  generalize hcount : (xs.filter p).length = count
  have hsum : ((xs.take count).filter p).length + ((xs.drop count).filter p).length = count := by
    rw [← List.length_append, ← List.filter_append, List.take_append_drop, hcount]
  have hlen : (xs.take count).length = count := by
    rw [List.length_take, ← hcount]
    exact Nat.min_eq_left (List.length_filter_le _ _)
  have hsplit := List.length_eq_length_filter_add p (l := xs.take count)
  rw [List.filter_reverse, List.length_reverse]
  omega

theorem gather_perm {α : Type} (p : α → Bool) (xs : List α) : (gather p xs).Perm xs := by
  have hlen := misplaced_length p xs
  unfold gather
  dsimp only
  generalize (xs.filter p).length = count at hlen
  generalize hfront : xs.take count = front at hlen
  generalize hback : (xs.drop count).reverse = back at hlen
  have hxs : xs.Perm (front ++ back) := by
    rw [← hfront, ← hback]
    calc xs.Perm (xs.take count ++ xs.drop count) := by rw [List.take_append_drop]
      List.Perm _ (xs.take count ++ (xs.drop count).reverse) :=
        (List.reverse_perm _).symm.append_left _
  have hone := refill_perm (!p ·) front (back.filter p) hlen
  have htwo := refill_perm p back (front.filter (!p ·)) hlen.symm
  simp only [Bool.not_not] at hone
  calc List.Perm _ ((front.filter p ++ back.filter p) ++
        (back.filter (!p ·) ++ front.filter (!p ·))) :=
        hone.append ((List.reverse_perm _).trans htwo)
    List.Perm _ ((front.filter p ++ front.filter (!p ·)) ++
        (back.filter p ++ back.filter (!p ·))) := by
        rw [List.append_assoc, List.append_assoc]
        refine List.Perm.append_left _ ?_
        rw [← List.append_assoc]
        exact List.perm_append_comm
    List.Perm _ (front ++ back) :=
        (List.filter_append_perm p front).append (List.filter_append_perm p back)
    List.Perm _ xs := hxs.symm

theorem exchangeLast_perm {α : Type} (p : α → Bool) (x : α) {ys zs : List α} {z : α}
    (h : exchangeLast p x ys = some (z, zs)) : (z :: zs).Perm (x :: ys) := by
  induction ys generalizing z zs with
  | nil => simp [exchangeLast] at h
  | cons y ys ih =>
    cases hrest : exchangeLast p x ys with
    | some r =>
      obtain ⟨z', zs'⟩ := r
      simp only [exchangeLast, hrest, Option.some.injEq, Prod.mk.injEq] at h
      obtain ⟨rfl, rfl⟩ := h
      calc List.Perm _ (y :: z' :: zs') := List.Perm.swap _ _ _
        List.Perm _ (y :: x :: ys) := (ih hrest).cons y
        List.Perm _ (x :: y :: ys) := List.Perm.swap _ _ _
    | none =>
      by_cases hy : p y
      · simp only [exchangeLast, hrest, hy, if_true, Option.some.injEq, Prod.mk.injEq] at h
        obtain ⟨rfl, rfl⟩ := h
        exact List.Perm.swap _ _ _
      · simp [exchangeLast, hrest, hy] at h

theorem afterReferences_perm (odd : Bool) (rest : List FieldDef) :
    (afterReferences odd rest).Perm rest := by
  cases rest with
  | nil => exact List.Perm.refl _
  | cons f fs =>
    unfold afterReferences
    dsimp only
    split
    · split
      · split
        · next narrow fs' heq =>
          exact ((gather_perm _ fs').cons narrow).trans (exchangeLast_perm _ _ heq)
        · exact gather_perm _ _
      · exact (gather_perm _ fs).cons f
    · exact gather_perm _ _

theorem ordered_perm (start : Nat) (own : List FieldDef) : (ordered start own).Perm own := by
  unfold ordered
  dsimp only
  generalize hsorted : own.mergeSort (fun a b => (a.compare b).isLE) = sorted
  generalize (sorted.filter (isKind .reference)).length = count
  calc List.Perm _ ((gather (isKind .reference) sorted).take count ++
        (gather (isKind .reference) sorted).drop count) :=
        (afterReferences_perm _ _).append_left _
    List.Perm _ (gather (isKind .reference) sorted) := by rw [List.take_append_drop]
    List.Perm _ sorted := gather_perm _ _
    List.Perm _ own := hsorted ▸ List.mergeSort_perm _ _

/-- Each field goes behind all that are there. -/
theorem place_extends (owner : Descriptor) (own : List FieldDef) (seenWide : Bool) (offset : Nat)
    (l : FieldLayout) (hp : Packed fieldSize l.fields) (hb : Below fieldSize l.fields offset) :
    Extends fieldSize owner own l (place owner seenWide offset l own) := by
  induction own generalizing seenWide offset l with
  | nil => exact (Extends.refl hp).withSize offset
  | cons f fs ih =>
    simp only [place]
    generalize hstart :
      (if (isKind .wide f && !seenWide && decide (offset % 8 ≠ 0)) = true then offset + 4
        else offset) = start
    have hle : offset ≤ start := by
      rw [← hstart]
      split <;> omega
    have hfree := hb.free hle (fieldSize f.type)
    have hstep : Extends fieldSize owner [f] l (l.insert start (f.ref owner)) :=
      Extends.insert fieldSize_pos hp f hfree
    have hbelow : Below fieldSize (l.insert start (f.ref owner)).fields
        (start + fieldSize f.type) := by
      intro e he
      rcases List.mem_cons.1 ((insertAt_perm fieldSize_pos hfree).mem_iff.1 he) with rfl | he
      · exact Nat.le_refl _
      · have := hb e he
        omega
    exact hstep.trans (ih _ _ _ hstep.packed hbelow)

theorem layout_extends (owner : Descriptor) {inherited : FieldLayout} (own : List FieldDef)
    (hp : Packed fieldSize inherited.fields) :
    Extends fieldSize owner own inherited (layout owner inherited own) :=
  (place_extends owner _ false _ inherited hp (below_lastEnd hp 8)).perm (ordered_perm _ own)

end DalvikLayout

/-! ## ART -/

namespace ArtLayout

theorem fieldSize_pos (d : Descriptor) : 0 < fieldSize d := by
  unfold fieldSize
  split <;> decide

theorem fieldSize_reference {d : Descriptor} (h : d.isReference) : fieldSize d = 4 := by
  simp only [Descriptor.isReference, Descriptor.isArray, Bool.or_eq_true, beq_iff_eq] at h
  unfold fieldSize
  rcases h with h | h <;> simp [h]

/-- The two gaps have no byte in common. -/
def Gap.Apart (g h : Gap) : Prop :=
  g.offset + g.size ≤ h.offset ∨ h.offset + h.size ≤ g.offset

theorem Gap.Apart.symm {g h : Gap} (a : g.Apart h) : h.Apart g := Or.symm a

theorem mem_of_firstGap? {v : ArtLayout} {gaps : List Gap} {g : Gap}
    (h : firstGap? v gaps = some g) : g ∈ gaps := by
  induction gaps generalizing g with
  | nil => simp [firstGap?] at h
  | cons a gaps ih =>
    simp only [firstGap?] at h
    split at h
    · cases h
      exact List.mem_cons_self
    · next first hfirst =>
      split at h
      · cases h
        exact List.mem_cons_of_mem _ (ih hfirst)
      · cases h
        exact List.mem_cons_self

theorem split_within (steps offset count : Nat) :
    ∀ g ∈ split steps offset count, offset ≤ g.offset ∧ g.offset + g.size ≤ offset + count := by
  induction steps generalizing offset count with
  | zero => simp [split]
  | succ steps ih =>
    intro g hg
    simp only [split] at hg
    split at hg
    · simp at hg
    · next hcount =>
      generalize hsize : (if 4 ≤ count ∧ offset % 4 = 0 then 4
        else if 2 ≤ count ∧ offset % 2 = 0 then 2 else 1) = size at hg
      have hle : size ≤ count := by
        rw [← hsize]
        split
        · omega
        · split <;> omega
      rcases List.mem_cons.1 hg with rfl | hg
      · exact ⟨Nat.le_refl _, Nat.add_le_add_left hle _⟩
      · have := ih _ _ g hg
        omega

theorem split_apart (steps offset count : Nat) :
    (split steps offset count).Pairwise Gap.Apart := by
  induction steps generalizing offset count with
  | zero => exact List.Pairwise.nil
  | succ steps ih =>
    simp only [split]
    split
    · exact List.Pairwise.nil
    · exact List.pairwise_cons.2
        ⟨fun g hg => .inl (split_within _ _ _ g hg).1, ih _ _⟩

theorem gapsBetween_within {start stop : Nat} {g : Gap} (hg : g ∈ gapsBetween start stop) :
    start ≤ g.offset ∧ g.offset + g.size ≤ max start stop := by
  have := split_within _ _ _ g hg
  omega

namespace State

variable {s : State}

/-- Below the offset, every byte belongs to at most one field or gap. -/
structure Sound (s : State) : Prop where
  packed : Packed fieldSize s.layout.fields
  below : Below fieldSize s.layout.fields s.offset
  gaps_below : ∀ g ∈ s.gaps, g.offset + g.size ≤ s.offset
  gaps_apart : s.gaps.Pairwise Gap.Apart
  gaps_free : ∀ g ∈ s.gaps, Free fieldSize s.layout.fields g.offset g.size

/-- The bytes skipped become gaps. -/
theorem Sound.align (h : s.Sound) {n : Nat} (hn : 0 < n) : (s.align n).Sound := by
  have hle : s.offset ≤ (s.offset + n - 1) / n * n := by
    have hdiv := Nat.div_add_mod (s.offset + n - 1) n
    have hmod := Nat.mod_lt (s.offset + n - 1) hn
    rw [Nat.mul_comm] at hdiv
    omega
  have hnew {g : Gap} (hg : g ∈ gapsBetween s.offset ((s.offset + n - 1) / n * n)) :
      s.offset ≤ g.offset ∧ g.offset + g.size ≤ (s.offset + n - 1) / n * n := by
    have := gapsBetween_within hg
    omega
  unfold State.align
  refine ⟨h.packed, fun e he => Nat.le_trans (h.below e he) hle, ?_, ?_, ?_⟩
  · intro g hg
    rcases List.mem_append.1 hg with hg | hg
    · exact Nat.le_trans (h.gaps_below g hg) hle
    · exact (hnew hg).2
  · refine List.pairwise_append.2 ⟨h.gaps_apart, split_apart _ _ _, fun g hg g' hg' => .inl ?_⟩
    exact Nat.le_trans (h.gaps_below g hg) (hnew hg').1
  · intro g hg
    rcases List.mem_append.1 hg with hg | hg
    · exact h.gaps_free g hg
    · exact h.below.free (hnew hg).1 _

section Step

variable {owner : Descriptor} {f : FieldDef}

theorem Sound.append_extends (h : s.Sound) (n : Nat) :
    Extends fieldSize owner [f] s.layout (s.append (f.ref owner) n).layout :=
  Extends.insert fieldSize_pos h.packed f (h.below.free (Nat.le_refl _) _)

theorem Sound.append (h : s.Sound) {n : Nat} (hn : fieldSize f.type = n) :
    (s.append (f.ref owner) n).Sound := by
  have hfree := h.below.free (Nat.le_refl s.offset) (fieldSize (f.ref owner).type)
  have hmem {e : Nat × FieldRef} (he : e ∈ (s.append (f.ref owner) n).layout.fields) :
      e = (s.offset, f.ref owner) ∨ e ∈ s.layout.fields :=
    List.mem_cons.1 ((insertAt_perm fieldSize_pos hfree).mem_iff.1 he)
  refine ⟨insertAt_packed fieldSize_pos h.packed hfree, ?_, ?_, h.gaps_apart, ?_⟩
  · intro e he
    rcases hmem he with rfl | he
    · exact Nat.add_le_add_left (Nat.le_of_eq hn) s.offset
    · exact Nat.le_add_right_of_le (h.below e he)
  · exact fun g hg => Nat.le_add_right_of_le (h.gaps_below g hg)
  · intro g hg e he
    rcases hmem he with rfl | he
    · exact .inr (h.gaps_below g hg)
    · exact h.gaps_free g hg e he

section Fill

variable {g : Gap} (hg : g ∈ s.gaps) (hfit : fieldSize f.type ≤ g.size)
include hg hfit

/-- The front of a gap is free. -/
theorem Sound.gap_front (h : s.Sound) :
    Free fieldSize s.layout.fields g.offset (fieldSize f.type) := by
  intro e he
  have := h.gaps_free g hg e he
  omega

theorem Sound.fill_extends (h : s.Sound) :
    Extends fieldSize owner [f] s.layout
      (s.fill g (f.ref owner) (fieldSize f.type)).layout :=
  Extends.insert fieldSize_pos h.packed f (h.gap_front hg hfit)

theorem Sound.fill (h : s.Sound) : (s.fill g (f.ref owner) (fieldSize f.type)).Sound := by
  have hfree := h.gap_front hg hfit
  have hbelow := h.gaps_below g hg
  have hmem {e : Nat × FieldRef}
      (he : e ∈ (s.fill g (f.ref owner) (fieldSize f.type)).layout.fields) :
      e = (g.offset, f.ref owner) ∨ e ∈ s.layout.fields :=
    List.mem_cons.1 ((insertAt_perm fieldSize_pos (f := f.ref owner) hfree).mem_iff.1 he)
  -- the gaps that stay are apart from the one that is filled
  have hsplit : (g :: s.gaps.erase g).Pairwise Gap.Apart :=
    (List.perm_cons_erase hg).pairwise h.gaps_apart Gap.Apart.symm
  obtain ⟨hapart, hrest⟩ := List.pairwise_cons.1 hsplit
  have hleft {r : Gap}
      (hr : r ∈ gapsBetween (g.offset + fieldSize f.type) (g.offset + g.size)) :
      g.offset + fieldSize f.type ≤ r.offset ∧ r.offset + r.size ≤ g.offset + g.size := by
    have := gapsBetween_within hr
    omega
  refine ⟨insertAt_packed fieldSize_pos h.packed hfree, ?_, ?_, ?_, ?_⟩
  · intro e he
    rcases hmem he with rfl | he
    · exact Nat.le_trans (Nat.add_le_add_left hfit _) hbelow
    · exact h.below e he
  · intro r hr
    rcases List.mem_append.1 hr with hr | hr
    · exact h.gaps_below r (List.mem_of_mem_erase hr)
    · exact Nat.le_trans (hleft hr).2 hbelow
  · refine List.pairwise_append.2 ⟨hrest, split_apart _ _ _, fun r hr r' hr' => ?_⟩
    have hr := hapart r hr
    have hr' := hleft hr'
    unfold Gap.Apart at hr ⊢
    omega
  · intro r hr e he
    rcases List.mem_append.1 hr with hr | hr <;> rcases hmem he with rfl | he
    · have hr := hapart r hr
      unfold Gap.Apart at hr
      change g.offset + fieldSize f.type ≤ r.offset ∨ r.offset + r.size ≤ g.offset
      omega
    · exact h.gaps_free r (List.mem_of_mem_erase hr) e he
    · exact .inl (hleft hr).1
    · have := h.gaps_free g hg e he
      have := hleft hr
      omega

end Fill

variable (owner f) in
theorem Sound.place (h : s.Sound) (v : ArtLayout) :
    (s.place v (f.ref owner)).Sound ∧
      Extends fieldSize owner [f] s.layout (s.place v (f.ref owner)).layout := by
  unfold State.place
  dsimp only
  split
  · next g hg =>
    split
    · next hfit =>
      have hmem := mem_of_firstGap? hg
      exact ⟨h.fill hmem hfit, h.fill_extends hmem hfit⟩
    · exact ⟨h.append rfl, h.append_extends _⟩
  · exact ⟨h.append rfl, h.append_extends _⟩

end Step

end State

/-- A loop has placed the front of its list and left the rest. -/
def Placed (owner : Descriptor) (s : State) (own : List FieldDef) (r : State × List FieldDef) :
    Prop :=
  r.1.Sound ∧ ∃ front, own = front ++ r.2 ∧ Extends fieldSize owner front s.layout r.1.layout

namespace Placed

variable {owner : Descriptor} {s s' : State} {own : List FieldDef} {r r' : State × List FieldDef}

theorem none (hs : s.Sound) (own : List FieldDef) : Placed owner s own (s, own) :=
  ⟨hs, [], rfl, Extends.refl hs.packed⟩

theorem cons {f : FieldDef} (hf : Extends fieldSize owner [f] s.layout s'.layout)
    (h : Placed owner s' own r) : Placed owner s (f :: own) r := by
  obtain ⟨hs, front, rfl, hfront⟩ := h
  exact ⟨hs, f :: front, rfl, hf.trans hfront⟩

theorem trans (h : Placed owner s own r) (h' : Placed owner r.1 r.2 r') :
    Placed owner s own r' := by
  obtain ⟨-, front, rfl, hfront⟩ := h
  obtain ⟨hs, front', hr, hfront'⟩ := h'
  exact ⟨hs, front ++ front', by rw [hr, List.append_assoc], hfront.trans hfront'⟩

end Placed

theorem placeReferences_placed (owner : Descriptor) (own : List FieldDef) {s : State}
    (hs : s.Sound) : Placed owner s own (placeReferences owner s own) := by
  induction own generalizing s with
  | nil => exact Placed.none hs []
  | cons f fs ih =>
    simp only [placeReferences]
    split
    · next href =>
      have ha := hs.align (show 0 < 4 by decide)
      exact Placed.cons (ha.append_extends 4) (ih (ha.append (fieldSize_reference href)))
    · exact Placed.none hs _

theorem placePass_placed (v : ArtLayout) (owner : Descriptor) {n : Nat} (hn : 0 < n)
    (own : List FieldDef) {s : State} (hs : s.Sound) :
    Placed owner s own (placePass v owner n s own) := by
  induction own generalizing s with
  | nil => exact Placed.none hs []
  | cons f fs ih =>
    simp only [placePass]
    split
    · exact Placed.none hs _
    · obtain ⟨hplace, hext⟩ := (hs.align hn).place owner f v
      exact Placed.cons hext (ih hplace)

/-- A pass goes on where the loop before it stopped. -/
theorem Placed.pass {owner : Descriptor} {s : State} {own : List FieldDef}
    {r : State × List FieldDef} (h : Placed owner s own r) (v : ArtLayout) {n : Nat}
    (hn : 0 < n) : Placed owner s own (placePass v owner n r.1 r.2) :=
  h.trans (placePass_placed v owner hn r.2 h.1)

/-- Every field has a byte, so the last pass leaves none. -/
theorem placePass_one (v : ArtLayout) (owner : Descriptor) (own : List FieldDef) (s : State) :
    (placePass v owner 1 s own).2 = [] := by
  induction own generalizing s with
  | nil => rfl
  | cons f fs ih =>
    have hsize : ¬ fieldSize f.type < 1 := Nat.not_lt.2 (fieldSize_pos _)
    simp only [placePass, hsize, if_false]
    exact ih _

theorem layout_extends (v : ArtLayout) (owner : Descriptor) {inherited : FieldLayout}
    (own : List FieldDef) (hp : Packed fieldSize inherited.fields) :
    Extends fieldSize owner own inherited (layout v owner inherited own) := by
  unfold layout
  dsimp only
  generalize hsorted : own.mergeSort (fun a b => (order v a b).isLE) = sorted
  generalize hstart : State.mk ((inherited.lastEnd? fieldSize).getD 0) [] inherited = start
  have hs : start.Sound := by
    rw [← hstart]
    exact ⟨hp, below_lastEnd hp 0, by simp, List.Pairwise.nil, by simp⟩
  have hall := ((((placeReferences_placed owner sorted hs).pass v (n := 8) (by decide)).pass v
    (n := 4) (by decide)).pass v (n := 2) (by decide)).pass v (n := 1) (by decide)
  obtain ⟨-, front, hfront, hext⟩ := hall
  rw [placePass_one, List.append_nil] at hfront
  have hinherited : start.layout = inherited := by rw [← hstart]
  rw [hinherited] at hext
  subst hfront
  refine (hext.perm ?_).withSize _
  exact hsorted ▸ List.mergeSort_perm _ _

end ArtLayout

/-! ## All strategies -/

namespace ClassPath

/-- Bytes that a field of a type takes on the runtime of the class path. -/
def fieldSize (p : ClassPath) : Descriptor → Nat :=
  match p.runtime.layoutStrategy with
  | .dalvik => DalvikLayout.fieldSize
  | .art _ => ArtLayout.fieldSize

theorem fieldSize_pos (p : ClassPath) (d : Descriptor) : 0 < p.fieldSize d := by
  unfold fieldSize
  cases p.runtime.layoutStrategy with
  | dalvik => exact DalvikLayout.fieldSize_pos d
  | art => exact ArtLayout.fieldSize_pos d

theorem layoutOver_extends (p : ClassPath) {inherited : FieldLayout} (c : ClassDef)
    (hp : Packed p.fieldSize inherited.fields) :
    Extends p.fieldSize c.descriptor c.instanceFields inherited (p.layoutOver inherited c) := by
  unfold fieldSize layoutOver at *
  cases hs : p.runtime.layoutStrategy with
  | dalvik =>
    simp only [hs] at hp ⊢
    exact DalvikLayout.layout_extends _ _ hp
  | art generation =>
    simp only [hs] at hp ⊢
    exact ArtLayout.layout_extends _ _ _ hp

end ClassPath

end SymbolicDex
