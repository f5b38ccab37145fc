import SymbolicDex.Proofs.Hierarchy.FieldPacking

/- The layout of a class under Dalvik, field by field. The swaps leave the fields
   of a class in four rows: references, at most one narrow field that fills up to a
   boundary of 8 bytes, wide fields, and the other narrow ones (`Arrangement`). The
   fields of a row lie side by side, so the only bytes that can be left over are
   four before the wide fields, where no narrow field was there to fill them.

   What is proved:
     1. `gather_front`, `gather_back`: a loop of swaps sorts a kind to the front.
     2. `afterReferences_rows`, `ordered_arranged`: the order of the fields is an
        arrangement.
     3. `place_narrow`, `place_wide`, `layout_arranged`: a row is placed without
        bytes between its fields.
     4. `layout_pads_exactly`: the size of an instance and the places of its
        fields. -/
namespace SymbolicDex

theorem Descriptor.not_isReference_of_isWide {d : Descriptor} (h : d.isWide) :
    ¬ d.isReference := by
  simp only [Descriptor.isWide, Bool.or_eq_true, beq_iff_eq] at h
  rcases h with rfl | rfl <;> decide +kernel

namespace DalvikLayout

open FieldLayout

/-! ## Kinds -/

variable {f : FieldDef}

theorem kindOf_eq_reference : kindOf f = .reference ↔ f.type.isReference := by
  unfold kindOf
  split
  · simp [*]
  · split <;> simp [*]

theorem kindOf_eq_wide : kindOf f = .wide ↔ f.type.isWide := by
  unfold kindOf
  split
  · next href =>
    have hnot : ¬ f.type.isWide := fun h => Descriptor.not_isReference_of_isWide h href
    simp [hnot]
  · split <;> simp [*]

theorem kindOf_eq_other : kindOf f = .other ↔ ¬ f.type.isReference ∧ ¬ f.type.isWide := by
  unfold kindOf
  split
  · simp [*]
  · split <;> simp [*]

theorem fieldSize_of_wide (h : kindOf f = .wide) : fieldSize f.type = 8 := by
  simp [fieldSize, kindOf_eq_wide.1 h]

theorem fieldSize_of_narrow (h : kindOf f ≠ .wide) : fieldSize f.type = 4 := by
  have hnot : ¬ f.type.isWide := fun hw => h (kindOf_eq_wide.2 hw)
  simp [fieldSize, hnot]

@[simp] theorem isKind_iff {k : FieldKind} : isKind k f = true ↔ kindOf f = k := by
  simp [isKind]

/-! ## The swaps -/

section Swaps

variable {α : Type} {p : α → Bool} {xs : List α}

theorem length_refill (p : α → Bool) (xs supply : List α) :
    (refill p xs supply).length = xs.length := by
  fun_induction refill p xs supply <;> simp_all

theorem gather_split (p : α → Bool) (xs : List α) :
    ∃ front back, gather p xs = front ++ back ∧ front.length = (xs.filter p).length ∧
      (∀ a ∈ front, p a = true) ∧ ∀ a ∈ back, p a = false := by
  have hlen := misplaced_length p xs
  have hone := refill_perm (!p ·) (xs.take (xs.filter p).length) _ hlen
  have htwo := refill_perm p (xs.drop (xs.filter p).length).reverse _ hlen.symm
  refine ⟨_, _, rfl, ?_, ?_, ?_⟩
  · rw [length_refill, List.length_take]
    exact Nat.min_eq_left (List.length_filter_le _ _)
  · intro a ha
    have hmem := hone.mem_iff.1 ha
    simp only [Bool.not_not, List.mem_append, List.mem_filter] at hmem
    rcases hmem with ⟨-, h⟩ | ⟨-, h⟩ <;> exact h
  · intro a ha
    have hmem := htwo.mem_iff.1 (List.mem_reverse.1 ha)
    simp only [List.mem_append, List.mem_filter, Bool.not_eq_true'] at hmem
    rcases hmem with ⟨-, h⟩ | ⟨-, h⟩ <;> exact h

theorem gather_front {a : α} (ha : a ∈ (gather p xs).take (xs.filter p).length) :
    p a = true := by
  obtain ⟨front, back, heq, hlen, hfront, -⟩ := gather_split p xs
  rw [heq, List.take_left' hlen] at ha
  exact hfront a ha

theorem gather_back {a : α} (ha : a ∈ (gather p xs).drop (xs.filter p).length) :
    p a = false := by
  obtain ⟨front, back, heq, hlen, -, hback⟩ := gather_split p xs
  rw [heq, List.drop_left' hlen] at ha
  exact hback a ha

theorem length_gather_front (p : α → Bool) (xs : List α) :
    ((gather p xs).take (xs.filter p).length).length = (xs.filter p).length := by
  rw [List.length_take, (gather_perm p xs).length_eq]
  exact Nat.min_eq_left (List.length_filter_le _ _)

theorem exchangeLast_eq_some {x z : α} {ys zs : List α}
    (h : exchangeLast p x ys = some (z, zs)) : p z = true := by
  induction ys generalizing z zs with
  | nil => simp [exchangeLast] at h
  | cons y ys ih =>
    simp only [exchangeLast] at h
    split at h
    · next hrest =>
      cases h
      exact ih hrest
    · split at h
      · next hy =>
        cases h
        exact hy
      · cases h

theorem exchangeLast_eq_none {x : α} {ys : List α} (h : exchangeLast p x ys = none) :
    ∀ y ∈ ys, p y = false := by
  induction ys with
  | nil => simp
  | cons y ys ih =>
    simp only [exchangeLast] at h
    split at h
    · cases h
    · next hrest =>
      split at h
      · cases h
      · next hy => exact List.forall_mem_cons.2 ⟨by simpa using hy, ih hrest⟩

end Swaps

/-! ## Rows -/

/-- Fields after the references: at most one narrow field, wide fields, the other
    narrow fields. There is one in front if the offset is odd and one is there. -/
structure Rows (odd : Bool) (rest : List FieldDef) where
  filler : List FieldDef
  wides : List FieldDef
  others : List FieldDef
  filler_kind : ∀ f ∈ filler, kindOf f = .other
  wides_kind : ∀ f ∈ wides, kindOf f = .wide
  others_kind : ∀ f ∈ others, kindOf f = .other
  filler_length : filler.length = if odd ∧ ∃ f ∈ rest, kindOf f = .other then 1 else 0

theorem kindOf_gather_back {rest : List FieldDef} (hrest : ∀ f ∈ rest, kindOf f ≠ .reference)
    (hf : f ∈ (gather (isKind .wide) rest).drop (rest.filter (isKind .wide)).length) :
    kindOf f = .other := by
  have hnot : kindOf f ≠ .wide := by
    have := gather_back hf
    simpa [isKind] using this
  have hmem := (gather_perm _ rest).mem_iff.1 ((List.drop_subset _ _) hf)
  have href := hrest f hmem
  cases hk : kindOf f with
  | reference => exact absurd hk href
  | wide => exact absurd hk hnot
  | other => rfl

/-- The rows that come of gathering the wide fields behind a filler. -/
def Rows.ofGather {odd : Bool} {rest fs : List FieldDef} (filler : List FieldDef)
    (hfiller : ∀ f ∈ filler, kindOf f = .other) (hfs : ∀ f ∈ fs, kindOf f ≠ .reference)
    (hlen : filler.length = if odd ∧ ∃ f ∈ rest, kindOf f = .other then 1 else 0) :
    Rows odd rest where
  filler := filler
  wides := (gather (isKind .wide) fs).take (fs.filter (isKind .wide)).length
  others := (gather (isKind .wide) fs).drop (fs.filter (isKind .wide)).length
  filler_kind := hfiller
  wides_kind _ hf := isKind_iff.1 (gather_front hf)
  others_kind _ hf := kindOf_gather_back hfs hf
  filler_length := hlen

theorem afterReferences_rows (odd : Bool) {rest : List FieldDef}
    (hrest : ∀ f ∈ rest, kindOf f ≠ .reference) :
    ∃ r : Rows odd rest, afterReferences odd rest = r.filler ++ (r.wides ++ r.others) := by
  have gathered (hno : ¬ (odd ∧ ∃ f ∈ rest, kindOf f = .other)) : ∃ r : Rows odd rest,
      gather (isKind .wide) rest = r.filler ++ (r.wides ++ r.others) := by
    refine ⟨Rows.ofGather [] (by simp) hrest (by rw [if_neg hno]; rfl), ?_⟩
    exact (List.take_append_drop _ _).symm
  have behind {g : FieldDef} {fs : List FieldDef} (hg : kindOf g = .other)
      (hodd : odd = true) (hperm : (g :: fs).Perm rest) : ∃ r : Rows odd rest,
      g :: gather (isKind .wide) fs = r.filler ++ (r.wides ++ r.others) := by
    have hfs : ∀ f ∈ fs, kindOf f ≠ .reference := fun f hf =>
      hrest f (hperm.mem_iff.1 (List.mem_cons_of_mem _ hf))
    have hyes : odd ∧ ∃ f ∈ rest, kindOf f = .other :=
      ⟨hodd, g, hperm.mem_iff.1 List.mem_cons_self, hg⟩
    refine ⟨Rows.ofGather [g] (by simpa using hg) hfs (by rw [if_pos hyes]; rfl), ?_⟩
    exact congrArg (g :: ·) (List.take_append_drop _ _).symm
  cases rest with
  | nil => exact gathered (by simp)
  | cons f fs =>
    unfold afterReferences
    dsimp only
    split
    · next hodd =>
      split
      · next hwide =>
        rw [isKind_iff] at hwide
        split
        · next narrow fs' heq =>
          exact behind (isKind_iff.1 (exchangeLast_eq_some heq)) hodd
            (exchangeLast_perm _ _ heq)
        · next hnone =>
          refine gathered ?_
          rintro ⟨-, g, hg, hother⟩
          rcases List.mem_cons.1 hg with rfl | hg
          · simp [hwide] at hother
          · have := exchangeLast_eq_none hnone g hg
            simp [isKind, hother] at this
      · next hwide =>
        refine behind ?_ hodd (List.Perm.refl _)
        have href := hrest f List.mem_cons_self
        rw [isKind_iff] at hwide
        cases hk : kindOf f with
        | reference => exact absurd hk href
        | wide => exact absurd hk hwide
        | other => rfl
    · next hodd => exact gathered fun h => hodd h.1

/-- The fields of a class in the order in which they get their offsets. -/
structure Arrangement (start : Nat) (own : List FieldDef) where
  references : List FieldDef
  filler : List FieldDef
  wides : List FieldDef
  others : List FieldDef
  references_kind : ∀ f ∈ references, kindOf f = .reference
  filler_kind : ∀ f ∈ filler, kindOf f = .other
  wides_kind : ∀ f ∈ wides, kindOf f = .wide
  others_kind : ∀ f ∈ others, kindOf f = .other
  own_perm : (references ++ (filler ++ (wides ++ others))).Perm own
  filler_length : filler.length =
    if (start + 4 * references.length) % 8 ≠ 0 ∧ ∃ f ∈ own, kindOf f = .other then 1 else 0

namespace Arrangement

variable {start : Nat} {own : List FieldDef} (a : Arrangement start own)

def list : List FieldDef := a.references ++ (a.filler ++ (a.wides ++ a.others))

/-- Where the references and the filler end. -/
def narrowEnd : Nat := start + 4 * a.references.length + 4 * a.filler.length

/-- Where the wide fields start. -/
def base : Nat := a.narrowEnd + if a.wides ≠ [] ∧ a.narrowEnd % 8 ≠ 0 then 4 else 0

/-- Where the last field ends. -/
def stop : Nat := a.base + 8 * a.wides.length + 4 * a.others.length

end Arrangement

theorem ordered_arranged {start : Nat} (hstart : start % 4 = 0) (own : List FieldDef) :
    ∃ a : Arrangement start own, ordered start own = a.list := by
  have hperm := ordered_perm start own
  unfold ordered at hperm ⊢
  dsimp only at hperm ⊢
  generalize hsorted : own.mergeSort (fun a b => (a.compare b).isLE) = sorted at hperm ⊢
  have hown : sorted.Perm own := hsorted ▸ List.mergeSort_perm _ _
  have hrefs := length_gather_front (isKind .reference) sorted
  generalize hgathered : gather (isKind .reference) sorted = gathered at hperm hrefs ⊢
  generalize hcount : (sorted.filter (isKind .reference)).length = count at hperm hrefs ⊢
  have hfront : ∀ f ∈ gathered.take count, kindOf f = .reference := by
    subst hgathered hcount
    exact fun f hf => isKind_iff.1 (gather_front hf)
  have hback : ∀ f ∈ gathered.drop count, kindOf f ≠ .reference := by
    subst hgathered hcount
    intro f hf
    simpa [isKind] using gather_back hf
  have hmem : ∀ f, f ∈ gathered ↔ f ∈ own := fun f =>
    hgathered ▸ ((gather_perm _ sorted).trans hown).mem_iff
  obtain ⟨r, hr⟩ :=
    afterReferences_rows (decide (count % 2 ≠ if start % 8 = 0 then 0 else 1)) hback
  rw [hr] at hperm ⊢
  refine ⟨⟨gathered.take count, r.filler, r.wides, r.others, hfront, r.filler_kind, r.wides_kind,
    r.others_kind, hperm, ?_⟩, rfl⟩
  rw [r.filler_length, hrefs]
  -- a narrow field is no reference, so it is among those that are left
  have hother : (∃ f ∈ gathered.drop count, kindOf f = .other) ↔
      ∃ f ∈ own, kindOf f = .other := by
    constructor
    · rintro ⟨f, hf, hk⟩
      exact ⟨f, (hmem f).1 (List.drop_subset _ _ hf), hk⟩
    · rintro ⟨f, hf, hk⟩
      have hgath := (hmem f).2 hf
      rw [← List.take_append_drop count gathered, List.mem_append] at hgath
      rcases hgath with h | h
      · simp [hfront f h] at hk
      · exact ⟨f, h, hk⟩
  have hodd : (decide (count % 2 ≠ if start % 8 = 0 then 0 else 1) = true) ↔
      (start + 4 * count) % 8 ≠ 0 := by
    rw [decide_eq_true_iff]
    split <;> omega
  simp only [hodd, hother]

/-! ## Placing a row -/

/-- Fields side by side, `width` bytes each. -/
def row (owner : Descriptor) (width : Nat) : Nat → List FieldDef → List (Nat × FieldRef)
  | _, [] => []
  | offset, f :: fs => (offset, f.ref owner) :: row owner width (offset + width) fs

section Row

variable {owner : Descriptor} {width offset : Nat} {fs : List FieldDef}

theorem map_row_offset :
    (row owner width offset fs).map (·.1) = List.range' offset fs.length width := by
  induction fs generalizing offset with
  | nil => rfl
  | cons f fs ih => simp [row, ih, List.range'_succ]

theorem map_row_field : (row owner width offset fs).map (·.2) = fs.map (·.ref owner) := by
  induction fs generalizing offset with
  | nil => rfl
  | cons f fs ih => simp [row, ih]

theorem offset_of_mem_row {e : Nat × FieldRef} (he : e ∈ row owner width offset fs) :
    ∃ i, i < fs.length ∧ e.1 = offset + width * i := by
  have hmem : e.1 ∈ (row owner width offset fs).map (·.1) := List.mem_map_of_mem he
  rw [map_row_offset, List.mem_range'] at hmem
  exact hmem

theorem field_of_mem_row {e : Nat × FieldRef} (he : e ∈ row owner width offset fs) :
    ∃ f ∈ fs, f.ref owner = e.2 := by
  have hmem : e.2 ∈ (row owner width offset fs).map (·.2) := List.mem_map_of_mem he
  rw [map_row_field] at hmem
  exact List.mem_map.1 hmem

end Row

/-- What comes behind all others is put at the end. -/
theorem insertAt_behind {offset : Nat} {f : FieldRef} {fields : List (Nat × FieldRef)}
    (h : ∀ e ∈ fields, e.1 < offset) : insertAt offset f fields = fields ++ [(offset, f)] := by
  induction fields with
  | nil => rfl
  | cons e es ih =>
    have he := h e List.mem_cons_self
    have hnot : ¬ offset < e.1 := by omega
    have hne : offset ≠ e.1 := by omega
    simp only [insertAt, hnot, hne, if_false]
    rw [ih fun x hx => h x (List.mem_cons_of_mem _ hx)]
    rfl

section Place

variable {owner : Descriptor} {seenWide : Bool} {offset : Nat} {l : FieldLayout}
  {fs rest : List FieldDef}

theorem behind_append {width : Nat} {f : FieldRef} (hw : 0 < width)
    (hl : ∀ e ∈ l.fields, e.1 < offset) :
    ∀ e ∈ (l.insert offset f).fields, e.1 < offset + width := by
  intro e he
  simp only [FieldLayout.insert, insertAt_behind hl, List.mem_append, List.mem_singleton] at he
  rcases he with he | rfl
  · have := hl e he
    omega
  · show offset < offset + width
    omega

/-- Fields of one size are placed side by side, if no bytes are skipped before any. -/
theorem place_row {width : Nat} (hwidth : 0 < width) (hsize : ∀ f ∈ fs, fieldSize f.type = width)
    (hskip : ∀ f ∈ fs, kindOf f = .wide → offset % 8 = 0 ∧ width % 8 = 0)
    (hl : ∀ e ∈ l.fields, e.1 < offset) :
    place owner seenWide offset l (fs ++ rest) =
      place owner (seenWide || fs.any (isKind .wide)) (offset + width * fs.length)
        { l with fields := l.fields ++ row owner width offset fs } rest := by
  induction fs generalizing offset l seenWide with
  | nil => simp [row]
  | cons f fs ih =>
    obtain ⟨hf, hsize⟩ := List.forall_mem_cons.1 hsize
    obtain ⟨hstay, hskip⟩ := List.forall_mem_cons.1 hskip
    have hgo : (isKind .wide f && !seenWide && decide (offset % 8 ≠ 0)) = false := by
      by_cases hwide : kindOf f = .wide
      · simp [(hstay hwide).1]
      · simp [isKind, hwide]
    have hskip' : ∀ f ∈ fs, kindOf f = .wide → (offset + width) % 8 = 0 ∧ width % 8 = 0 := by
      intro g hg hwide
      have := hskip g hg hwide
      omega
    have hlen : offset + width + width * fs.length = offset + width * (fs.length + 1) := by
      rw [Nat.mul_succ]
      omega
    rw [List.cons_append, place]
    simp only [hgo, Bool.false_eq_true, if_false, hf]
    rw [ih hsize hskip' (behind_append hwidth hl)]
    simp [FieldLayout.insert, insertAt_behind hl, row, hlen, Bool.or_assoc]

theorem place_narrow (hfs : ∀ f ∈ fs, kindOf f ≠ .wide) (hl : ∀ e ∈ l.fields, e.1 < offset) :
    place owner seenWide offset l (fs ++ rest) =
      place owner seenWide (offset + 4 * fs.length)
        { l with fields := l.fields ++ row owner 4 offset fs } rest := by
  have hnone : fs.any (isKind .wide) = false := by
    simpa [isKind] using hfs
  rw [place_row (by decide) (fun f hf => fieldSize_of_narrow (hfs f hf))
    (fun f hf hwide => absurd hwide (hfs f hf)) hl, hnone, Bool.or_false]

theorem place_wide (hfs : ∀ f ∈ fs, kindOf f = .wide) (hl : ∀ e ∈ l.fields, e.1 < offset)
    (haligned : fs ≠ [] → offset % 8 = 0) :
    place owner seenWide offset l (fs ++ rest) =
      place owner (seenWide || fs.any (isKind .wide)) (offset + 8 * fs.length)
        { l with fields := l.fields ++ row owner 8 offset fs } rest :=
  place_row (by decide) (fun f hf => fieldSize_of_wide (hfs f hf))
    (fun _ hf _ => ⟨haligned (List.ne_nil_of_mem hf), rfl⟩) hl

/-- Before the first wide field four bytes are skipped if it would be off its
    boundary. -/
theorem place_skip (hfs : ∀ f ∈ fs, kindOf f = .wide) (h4 : offset % 4 = 0) :
    place owner false offset l (fs ++ rest) =
      place owner false (offset + if fs ≠ [] ∧ offset % 8 ≠ 0 then 4 else 0) l (fs ++ rest) := by
  by_cases hskip : fs ≠ [] ∧ offset % 8 ≠ 0
  · obtain ⟨hne, hoff⟩ := hskip
    obtain ⟨f, fs, rfl⟩ := List.exists_cons_of_ne_nil hne
    have hkind : isKind .wide f = true := isKind_iff.2 (hfs f List.mem_cons_self)
    have haligned : (offset + 4) % 8 = 0 := by omega
    rw [if_pos ⟨hne, hoff⟩]
    simp [place, hkind, hoff, haligned]
  · rw [if_neg hskip]
    rfl

end Place

namespace Arrangement

variable {start : Nat} {own : List FieldDef} (a : Arrangement start own) (owner : Descriptor)

/-- The fields with their offsets. -/
def entries : List (Nat × FieldRef) :=
  row owner 4 start a.references ++
    (row owner 4 (start + 4 * a.references.length) a.filler ++
      (row owner 8 a.base a.wides ++ row owner 4 (a.base + 8 * a.wides.length) a.others))

theorem narrowEnd_aligned (hstart : start % 4 = 0) : a.narrowEnd % 4 = 0 := by
  unfold narrowEnd
  omega

theorem base_aligned (hstart : start % 4 = 0) (hwides : a.wides ≠ []) : a.base % 8 = 0 := by
  unfold base
  have hnarrow : a.narrowEnd % 4 = 0 := a.narrowEnd_aligned hstart
  by_cases hoff : a.narrowEnd % 8 = 0
  · rw [if_neg fun h => h.2 hoff]
    exact hoff
  · rw [if_pos ⟨hwides, hoff⟩]
    omega

theorem narrowEnd_le_base : a.narrowEnd ≤ a.base := by
  unfold base
  omega

theorem behind_row {width offset : Nat} {fields : List (Nat × FieldRef)} (fs : List FieldDef)
    (hwidth : 0 < width) (h : ∀ e ∈ fields, e.1 < offset) :
    ∀ e ∈ fields ++ row owner width offset fs, e.1 < offset + width * fs.length := by
  intro e he
  rcases List.mem_append.1 he with he | he
  · exact Nat.lt_add_right _ (h e he)
  · obtain ⟨i, hi, heq⟩ := offset_of_mem_row he
    have := Nat.mul_lt_mul_of_pos_left hi hwidth
    omega

theorem place_eq {l : FieldLayout} (hstart : start % 4 = 0) (hl : ∀ e ∈ l.fields, e.1 < start) :
    place owner false start l a.list = ⟨l.fields ++ a.entries owner, a.stop⟩ := by
  have hrefs : ∀ f ∈ a.references, kindOf f ≠ .wide := fun f hf => by
    simp [a.references_kind f hf]
  have hfiller : ∀ f ∈ a.filler, kindOf f ≠ .wide := fun f hf => by
    simp [a.filler_kind f hf]
  have hothers : ∀ f ∈ a.others, kindOf f ≠ .wide := fun f hf => by
    simp [a.others_kind f hf]
  -- each row starts behind those before it
  have hone := behind_row owner a.references (show 0 < 4 by decide) hl
  have htwo := behind_row owner a.filler (show 0 < 4 by decide) hone
  have hthree : ∀ e ∈ l.fields ++ row owner 4 start a.references ++
      row owner 4 (start + 4 * a.references.length) a.filler, e.1 < a.base := fun e he =>
    Nat.lt_of_lt_of_le (htwo e he) a.narrowEnd_le_base
  have hfour := behind_row owner a.wides (show 0 < 8 by decide) hthree
  unfold list
  rw [place_narrow hrefs hl, place_narrow hfiller hone]
  show place owner false a.narrowEnd _ _ = _
  rw [place_skip a.wides_kind (a.narrowEnd_aligned hstart)]
  show place owner false a.base _ _ = _
  rw [place_wide a.wides_kind hthree (a.base_aligned hstart), ← List.append_nil a.others,
    place_narrow hothers hfour]
  simp [place, entries, stop]

/-! Counting the fields of a row. -/

theorem filter_list (q : FieldDef → Bool) :
    (own.filter q).length = (a.references.filter q).length + (a.filler.filter q).length +
      (a.wides.filter q).length + (a.others.filter q).length := by
  rw [← (a.own_perm.filter q).length_eq]
  simp only [List.filter_append, List.length_append]
  omega

theorem length_wides : (own.filter (·.type.isWide)).length = a.wides.length := by
  have hnone {fs : List FieldDef} (h : ∀ f ∈ fs, kindOf f ≠ .wide) :
      fs.filter (·.type.isWide) = [] :=
    List.filter_eq_nil_iff.2 fun f hf hwide => h f hf (kindOf_eq_wide.2 hwide)
  have hall : a.wides.filter (·.type.isWide) = a.wides :=
    List.filter_eq_self.2 fun f hf => kindOf_eq_wide.1 (a.wides_kind f hf)
  rw [a.filter_list, hall, hnone fun f hf => by simp [a.references_kind f hf],
    hnone fun f hf => by simp [a.filler_kind f hf], hnone fun f hf => by simp [a.others_kind f hf]]
  simp

theorem length_references :
    (own.filter (·.type.isReference)).length = a.references.length := by
  have hnone {fs : List FieldDef} (h : ∀ f ∈ fs, kindOf f ≠ .reference) :
      fs.filter (·.type.isReference) = [] :=
    List.filter_eq_nil_iff.2 fun f hf href => h f hf (kindOf_eq_reference.2 href)
  have hall : a.references.filter (·.type.isReference) = a.references :=
    List.filter_eq_self.2 fun f hf => kindOf_eq_reference.1 (a.references_kind f hf)
  rw [a.filter_list, hall, hnone fun f hf => by simp [a.filler_kind f hf],
    hnone fun f hf => by simp [a.wides_kind f hf], hnone fun f hf => by simp [a.others_kind f hf]]
  simp

theorem length_own :
    own.length = a.references.length + a.filler.length + a.wides.length + a.others.length := by
  rw [← a.own_perm.length_eq]
  simp only [List.length_append]
  omega

theorem wides_ne_nil_iff : a.wides ≠ [] ↔ ∃ f ∈ own, f.type.isWide := by
  rw [← List.length_pos_iff, ← a.length_wides, List.length_pos_iff_exists_mem]
  simp [List.mem_filter]

end Arrangement

/-- The bytes left over before the wide fields of a class that starts at `start`. -/
def pad (start : Nat) (own : List FieldDef) : Nat :=
  if (∃ f ∈ own, f.type.isWide) ∧ (∀ f ∈ own, f.type.isReference ∨ f.type.isWide) ∧
      (start + 4 * (own.filter (·.type.isReference)).length) % 8 ≠ 0 then 4 else 0

theorem Arrangement.base_eq {start : Nat} {own : List FieldDef} (a : Arrangement start own)
    (hstart : start % 4 = 0) : a.base = a.narrowEnd + pad start own := by
  have hother : (∀ f ∈ own, f.type.isReference ∨ f.type.isWide) ↔
      ¬ ∃ f ∈ own, kindOf f = .other := by
    simp only [kindOf_eq_other, not_exists, not_and, not_not]
    refine forall₂_congr fun f _ => ?_
    cases f.type.isReference <;> simp
  have hlen := a.filler_length
  unfold base pad
  simp only [a.wides_ne_nil_iff, a.length_references, hother]
  by_cases hsome : ∃ f ∈ own, kindOf f = .other
  · -- a filler brings the offset to the boundary
    have hfilled : a.narrowEnd % 8 = 0 := by
      unfold narrowEnd
      simp only [hsome, and_true] at hlen
      split at hlen <;> omega
    simp [hsome, hfilled]
  · have hnarrow : a.narrowEnd = start + 4 * a.references.length := by
      simp only [hsome, and_false, if_false] at hlen
      simp [narrowEnd, hlen]
    simp [hsome, hnarrow]

theorem before_lastEnd {l : FieldLayout} (h : l.fields.Pairwise fun a b => a.1 < b.1) :
    ∀ e ∈ l.fields, e.1 < (l.lastEnd? fieldSize).getD 8 := by
  rcases List.eq_nil_or_concat l.fields with hnil | ⟨init, last, hlast⟩
  · simp [hnil]
  · rw [List.concat_eq_append] at hlast
    have hpos := fieldSize_pos last.2.type
    rw [hlast, List.pairwise_append] at h
    intro e he
    rw [hlast, List.mem_append, List.mem_singleton] at he
    have hend : (l.lastEnd? fieldSize).getD 8 = last.1 + fieldSize last.2.type := by
      simp [lastEnd?, hlast]
    rw [hend]
    rcases he with he | rfl
    · have := h.2.2 e he last (List.mem_singleton.2 rfl)
      omega
    · omega

/-- A layout under Dalvik is the inherited one and an arrangement behind it. -/
theorem layout_arranged (owner : Descriptor) {inherited : FieldLayout} (own : List FieldDef)
    {start : Nat} (hfields : inherited.fields.Pairwise fun a b => a.1 < b.1)
    (hend : (inherited.lastEnd? fieldSize).getD 8 = start) (hstart : start % 4 = 0) :
    ∃ a : Arrangement start own,
      layout owner inherited own = ⟨inherited.fields ++ a.entries owner, a.stop⟩ := by
  obtain ⟨a, ha⟩ := ordered_arranged hstart own
  refine ⟨a, ?_⟩
  unfold layout
  dsimp only
  rw [hend, ha]
  exact a.place_eq owner hstart (hend ▸ before_lastEnd hfields)

section Arranged

variable {start : Nat} {own : List FieldDef} (a : Arrangement start own) (owner : Descriptor)
  {e : Nat × FieldRef}

namespace Arrangement

theorem map_entries : ((a.entries owner).map (·.2)).Perm (own.map (·.ref owner)) := by
  have heq : (a.entries owner).map (·.2) = a.list.map (·.ref owner) := by
    simp [entries, list, map_row_field]
  rw [heq]
  exact a.own_perm.map _

theorem stop_eq (hstart : start % 4 = 0) :
    a.stop = start + 4 * (own.filter (!·.type.isWide)).length +
      8 * (own.filter (·.type.isWide)).length + pad start own := by
  have hsplit := List.length_eq_length_filter_add (fun f : FieldDef => f.type.isWide) (l := own)
  have hown := a.length_own
  have hwides := a.length_wides
  unfold stop
  rw [a.base_eq hstart]
  unfold narrowEnd
  omega

variable {owner}

/-- Where a field is, by its kind. -/
theorem offset_of_mem_entries (he : e ∈ a.entries owner) :
    (e.2.type.isReference ∧ ¬ e.2.type.isWide ∧
      ∃ i, i < a.references.length ∧ e.1 = start + 4 * i) ∨
    (¬ e.2.type.isReference ∧ ¬ e.2.type.isWide ∧
      ∃ i, e.1 = start + 4 * a.references.length + 4 * i) ∨
    (¬ e.2.type.isReference ∧ e.2.type.isWide ∧ ∃ i, i < a.wides.length ∧ e.1 = a.base + 8 * i) ∨
    (¬ e.2.type.isReference ∧ ¬ e.2.type.isWide ∧
      ∃ i, e.1 = a.base + 8 * a.wides.length + 4 * i) := by
  simp only [entries, List.mem_append] at he
  rcases he with he | he | he | he <;> obtain ⟨i, hi, hoffset⟩ := offset_of_mem_row he <;>
    obtain ⟨f, hf, hfield⟩ := field_of_mem_row he <;>
    have htype : e.2.type = f.type := hfield ▸ rfl
  · have hk := a.references_kind f hf
    have hwide : ¬ f.type.isWide := fun h => by simp [kindOf_eq_wide.2 h] at hk
    exact .inl ⟨htype ▸ kindOf_eq_reference.1 hk, htype ▸ hwide, i, hi, hoffset⟩
  · have hk := kindOf_eq_other.1 (a.filler_kind f hf)
    exact .inr (.inl ⟨htype ▸ hk.1, htype ▸ hk.2, i, hoffset⟩)
  · have hk := kindOf_eq_wide.1 (a.wides_kind f hf)
    have href := Descriptor.not_isReference_of_isWide hk
    exact .inr (.inr (.inl ⟨htype ▸ href, htype ▸ hk, i, hi, hoffset⟩))
  · have hk := kindOf_eq_other.1 (a.others_kind f hf)
    exact .inr (.inr (.inr ⟨htype ▸ hk.1, htype ▸ hk.2, i, hoffset⟩))

theorem filter_wide_entries :
    (a.entries owner).filter (·.2.type.isWide) = row owner 8 a.base a.wides := by
  have hnone {width offset : Nat} {fs : List FieldDef} (h : ∀ f ∈ fs, kindOf f ≠ .wide) :
      (row owner width offset fs).filter (·.2.type.isWide) = [] := by
    refine List.filter_eq_nil_iff.2 fun e he hwide => ?_
    obtain ⟨f, hf, hfield⟩ := field_of_mem_row he
    exact h f hf (kindOf_eq_wide.2 (show (f.ref owner).type.isWide by rwa [hfield]))
  have hall : (row owner 8 a.base a.wides).filter (·.2.type.isWide) =
      row owner 8 a.base a.wides := by
    refine List.filter_eq_self.2 fun e he => ?_
    obtain ⟨f, hf, hfield⟩ := field_of_mem_row he
    rw [← hfield]
    exact kindOf_eq_wide.1 (a.wides_kind f hf)
  simp only [entries, List.filter_append]
  rw [hall, hnone fun f hf => by simp [a.references_kind f hf],
    hnone fun f hf => by simp [a.filler_kind f hf], hnone fun f hf => by simp [a.others_kind f hf]]
  simp

end Arrangement

end Arranged

/-- A class grows by the sizes of its fields, and by four bytes more if it has a wide
    field that would be off its boundary behind the references and no narrow field to
    fill up with. Its references come before its other fields, and its wide fields
    follow one another without a byte between them. -/
theorem layout_pads_exactly (owner : Descriptor) {inherited : FieldLayout} (own : List FieldDef)
    {start : Nat} (hfields : inherited.fields.Pairwise fun a b => a.1 < b.1)
    (hend : (inherited.lastEnd? fieldSize).getD 8 = start) (hstart : start % 4 = 0) :
    (layout owner inherited own).size = start + 4 * (own.filter (!·.type.isWide)).length +
      8 * (own.filter (·.type.isWide)).length + pad start own ∧
    ∃ placed : List (Nat × FieldRef),
      (layout owner inherited own).fields = inherited.fields ++ placed ∧
      (placed.map (·.2)).Perm (own.map (·.ref owner)) ∧
      (∀ a ∈ placed, ∀ b ∈ placed, a.2.type.isReference → ¬ b.2.type.isReference → a.1 < b.1) ∧
      ∃ base, (placed.filter (·.2.type.isWide)).map (·.1) =
        List.range' base (own.filter (·.type.isWide)).length 8 := by
  obtain ⟨a, ha⟩ := layout_arranged owner own hfields hend hstart
  rw [ha]
  refine ⟨a.stop_eq hstart, a.entries owner, rfl, a.map_entries owner, ?_, a.base, ?_⟩
  · intro e he e' he' href href'
    have hbase := a.narrowEnd_le_base
    unfold Arrangement.narrowEnd at hbase
    have hfirst : e.1 < start + 4 * a.references.length := by
      rcases a.offset_of_mem_entries he with ⟨-, -, i, hi, h⟩ | ⟨h, -⟩ | ⟨h, -⟩ | ⟨h, -⟩
      · omega
      all_goals exact absurd href h
    have hsecond : start + 4 * a.references.length ≤ e'.1 := by
      rcases a.offset_of_mem_entries he' with
        ⟨h, -⟩ | ⟨-, -, i, h⟩ | ⟨-, -, i, -, h⟩ | ⟨-, -, i, h⟩
      · exact absurd h href'
      all_goals omega
    exact Nat.lt_of_lt_of_le hfirst hsecond
  · rw [a.filter_wide_entries, map_row_offset, a.length_wides]

/-! ## A class whose wide fields are off their boundary -/

namespace Sample

/-- A class that ends between two boundaries. -/
def counted : FieldLayout := ⟨[(8, ⟨"LCounted;", "count", "I"⟩)], 12⟩

def interval : List FieldDef :=
  [⟨"start", "J", ⟨2⟩⟩, ⟨"left", "LNode;", ⟨2⟩⟩, ⟨"length", "D", ⟨2⟩⟩, ⟨"right", "LNode;", ⟨2⟩⟩]

end Sample

open Sample in
/-- Behind two references the offset is 20, so four bytes are left over. -/
theorem interval_padded :
    (counted.lastEnd? fieldSize).getD 8 = 12 ∧ pad 12 interval = 4 ∧
      (layout "LInterval;" counted interval).size = 40 ∧
      ∃ placed : List (Nat × FieldRef),
        (layout "LInterval;" counted interval).fields = counted.fields ++ placed ∧
        (placed.map (·.2)).Perm (interval.map (·.ref "LInterval;")) ∧
        (∀ a ∈ placed, ∀ b ∈ placed, a.2.type.isReference → ¬ b.2.type.isReference →
          a.1 < b.1) ∧
        ∃ base, (placed.filter (·.2.type.isWide)).map (·.1) =
          List.range' base (interval.filter (·.type.isWide)).length 8 := by
  have hend : (counted.lastEnd? fieldSize).getD 8 = 12 := by decide +kernel
  have hpad : pad 12 interval = 4 := by decide +kernel
  have h := layout_pads_exactly "LInterval;" interval (List.pairwise_singleton _ _) hend rfl
  refine ⟨hend, hpad, ?_, h.2⟩
  rw [h.1, hpad]
  decide +kernel

end DalvikLayout

end SymbolicDex
