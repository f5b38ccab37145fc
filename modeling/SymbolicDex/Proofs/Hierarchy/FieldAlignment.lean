import SymbolicDex.Proofs.Hierarchy.DalvikPadding
import SymbolicDex.Proofs.Hierarchy.LayoutStability
import SymbolicDex.Proofs.Hierarchy.MemberOrder

/- Fields are aligned as their runtime requires (`ClassPath.AlignedAt`). Under Dalvik
   the wide fields of a class lie side by side from a boundary of 8 bytes on. Under
   ART a field is placed at the offset, which its pass has brought to a multiple, or
   in a gap, and gaps are cut at multiples of their size (`Gap.Natural`). The order of
   the fields sees to it that a field meets the pass for its size: in the current
   generation every field, in the legacy one the references and the wide fields.

   What is proved:
     1. `split_natural`: gaps are cut at multiples of their size.
     2. `State.Aligned.place`, `placeReferences_aligned`, `placePass_aligned`: what one
        field needs, and what a loop keeps.
     3. `not_of_mem_dropWhile`: which fields the loops before have left for a pass.
     4. `layoutOver_aligned`: a class keeps the alignment of the layout above it.
     5. `layout_aligned`: every class with a rooted superclass chain, after any
        history. -/
namespace SymbolicDex

open FieldLayout

theorem FieldLayout.mem_insertAt {offset : Nat} {f : FieldRef} {fields : List (Nat × FieldRef)}
    {e : Nat × FieldRef} (he : e ∈ insertAt offset f fields) : e = (offset, f) ∨ e ∈ fields := by
  induction fields with
  | nil => simpa [insertAt] using he
  | cons x xs ih =>
    simp only [insertAt] at he
    split at he
    · simpa using he
    · split at he
      · exact (List.mem_cons.1 he).imp_right (List.mem_cons_of_mem _)
      · rcases List.mem_cons.1 he with rfl | he
        · exact .inr List.mem_cons_self
        · exact (ih he).imp_right (List.mem_cons_of_mem _)

/-- In a list where those that satisfy `p` come first, none is left once all that
    satisfy `q` are dropped from the front. -/
theorem not_of_mem_dropWhile {α : Type} {p q : α → Bool} {xs : List α}
    (hpq : ∀ x, p x = true → q x = true) (h : xs.Pairwise fun a b => p b = true → p a = true) :
    ∀ x ∈ xs.dropWhile q, p x = false := by
  induction xs with
  | nil => simp
  | cons a xs ih =>
    obtain ⟨hhead, htail⟩ := List.pairwise_cons.1 h
    rw [List.dropWhile_cons]
    split
    · exact ih htail
    · next hq =>
      have ha : p a = false := by
        rw [← Bool.not_eq_true]
        exact fun hp => hq (hpq a hp)
      refine List.forall_mem_cons.2 ⟨ha, fun x hx => ?_⟩
      rw [← Bool.not_eq_true] at ha ⊢
      exact fun hp => ha (hhead x hx hp)

/-! ## ART -/

namespace ArtLayout

/-- A gap of 1, 2 or 4 bytes at a multiple of its size. -/
structure Gap.Natural (g : Gap) : Prop where
  size : g.size = 1 ∨ g.size = 2 ∨ g.size = 4
  dvd : g.size ∣ g.offset

theorem split_natural (steps offset count : Nat) : ∀ g ∈ split steps offset count, g.Natural := by
  induction steps generalizing offset count with
  | zero => simp [split]
  | succ steps ih =>
    intro g hg
    simp only [split] at hg
    split at hg
    · simp at hg
    · rcases List.mem_cons.1 hg with rfl | hg
      · split
        · next h => exact ⟨.inr (.inr rfl), Nat.dvd_of_mod_eq_zero h.2⟩
        · split
          · next h => exact ⟨.inr (.inl rfl), Nat.dvd_of_mod_eq_zero h.2⟩
          · exact ⟨.inl rfl, Nat.one_dvd _⟩
      · exact ih _ _ g hg

theorem fieldSize_dvd_gap {d : Descriptor} {g : Gap} (hg : g.Natural) (h : fieldSize d ≤ g.size) :
    fieldSize d ∣ g.offset := by
  refine Nat.dvd_trans ?_ hg.dvd
  rcases hg.size with hs | hs | hs <;> rcases fieldSize_cases d with hd | hd | hd | hd <;>
    rw [hs, hd] at h ⊢ <;> omega

namespace State

variable {P : Nat × FieldRef → Prop} {s : State} {n : Nat}

theorem dvd_align (s : State) (n : Nat) : n ∣ (s.align n).offset := Nat.dvd_mul_left _ _

/-- The gaps are natural and every field is where `P` says. -/
structure Aligned (P : Nat × FieldRef → Prop) (s : State) : Prop where
  gaps : ∀ g ∈ s.gaps, g.Natural
  fields : ∀ e ∈ s.layout.fields, P e

theorem Aligned.align (h : s.Aligned P) (n : Nat) : (s.align n).Aligned P where
  gaps g hg := (List.mem_append.1 hg).elim (h.gaps g) (split_natural _ _ _ g)
  fields := h.fields

theorem Aligned.append (h : s.Aligned P) {f : FieldRef} (hP : P (s.offset, f)) (n : Nat) :
    (s.append f n).Aligned P where
  gaps := h.gaps
  fields e he := (mem_insertAt he).elim (fun heq => heq ▸ hP) (h.fields e)

theorem Aligned.fill (h : s.Aligned P) {g : Gap} {f : FieldRef} (hP : P (g.offset, f)) (n : Nat) :
    (s.fill g f n).Aligned P where
  gaps r hr := (List.mem_append.1 hr).elim (fun hr => h.gaps r (List.mem_of_mem_erase hr))
    (split_natural _ _ _ r)
  fields e he := (mem_insertAt he).elim (fun heq => heq ▸ hP) (h.fields e)

/-- A field is at the offset or, in a gap, at a multiple of its size. -/
theorem Aligned.place (h : s.Aligned P) (v : ArtLayout) {f : FieldRef} (hP : P (s.offset, f))
    (hgap : ∀ o, fieldSize f.type ∣ o → P (o, f)) : (s.place v f).Aligned P := by
  unfold State.place
  dsimp only
  split
  · next g hg =>
    split
    · next hfit =>
      have hnatural := h.gaps g (mem_of_firstGap? hg)
      exact h.fill (hgap _ (fieldSize_dvd_gap hnatural hfit)) _
    · exact h.append hP _
  · exact h.append hP _

end State

section Loops

variable {P : Nat × FieldRef → Prop} {v : ArtLayout} {owner : Descriptor} {n : Nat} {s : State}
  {own : List FieldDef}

theorem placeReferences_aligned
    (hP : ∀ f ∈ own, f.type.isReference → ∀ o, 4 ∣ o → P (o, f.ref owner)) (h : s.Aligned P) :
    (placeReferences owner s own).1.Aligned P := by
  induction own generalizing s with
  | nil => exact h
  | cons f fs ih =>
    obtain ⟨hf, hfs⟩ := List.forall_mem_cons.1 hP
    simp only [placeReferences]
    split
    · next href => exact ih hfs ((h.align 4).append (hf href _ (s.dvd_align 4)) 4)
    · exact h

theorem placePass_aligned
    (hP : ∀ f ∈ own, n ≤ fieldSize f.type → ∀ o, n ∣ o ∨ fieldSize f.type ∣ o →
      P (o, f.ref owner))
    (h : s.Aligned P) : (placePass v owner n s own).1.Aligned P := by
  induction own generalizing s with
  | nil => exact h
  | cons f fs ih =>
    obtain ⟨hf, hfs⟩ := List.forall_mem_cons.1 hP
    simp only [placePass]
    split
    · exact h
    · next hsize =>
      have hle : n ≤ fieldSize f.type := Nat.le_of_not_lt hsize
      exact ih hfs ((h.align n).place v (hf hle _ (.inl (s.dvd_align n)))
        fun o ho => hf hle o (.inr ho))

theorem placeReferences_rest :
    (placeReferences owner s own).2 = own.dropWhile (·.type.isReference) := by
  induction own generalizing s with
  | nil => rfl
  | cons f fs ih =>
    simp only [placeReferences, List.dropWhile_cons]
    split
    · exact ih
    · rfl

theorem placePass_rest :
    (placePass v owner n s own).2 = own.dropWhile (n ≤ fieldSize ·.type) := by
  induction own generalizing s with
  | nil => rfl
  | cons f fs ih =>
    simp only [placePass, List.dropWhile_cons, decide_eq_true_eq]
    by_cases hsize : fieldSize f.type < n
    · rw [if_pos hsize, if_neg (Nat.not_le.2 hsize)]
    · rw [if_neg hsize, if_pos (Nat.le_of_not_lt hsize)]
      exact ih

end Loops

/-- What the five loops, one after the other, make of fields placed from `start` on. -/
def layoutFrom (v : ArtLayout) (owner : Descriptor) (start : Nat) (inherited : FieldLayout)
    (own : List FieldDef) : FieldLayout :=
  let r := [8, 4, 2, 1].foldl (fun r n => placePass v owner n r.1 r.2)
    (placeReferences owner ⟨start, [], inherited⟩ (own.mergeSort fun a b => (order v a b).isLE))
  { r.1.layout with size := r.1.offset }

theorem layout_eq_from (v : ArtLayout) (owner : Descriptor) (inherited : FieldLayout)
    (own : List FieldDef) :
    layout v owner inherited own =
      layoutFrom v owner ((inherited.lastEnd? fieldSize).getD 0) inherited own := rfl

/-- Where a field may be, by the generation. -/
def AlignedAt (v : ArtLayout) (e : Nat × FieldRef) : Prop :=
  match v with
  | .current => fieldSize e.2.type ∣ e.1
  | .legacy => (e.2.type.isReference → 4 ∣ e.1) ∧ (e.2.type.isWide → 8 ∣ e.1)

theorem alignedAt_reference (v : ArtLayout) {f : FieldDef} (href : f.type.isReference)
    {owner : Descriptor} {o : Nat} (ho : 4 ∣ o) : AlignedAt v (o, f.ref owner) := by
  cases v with
  | current =>
    show fieldSize f.type ∣ o
    rwa [fieldSize_reference href]
  | legacy => exact ⟨fun _ => ho, fun hw => absurd href (Descriptor.not_isReference_of_isWide hw)⟩

section Passes

variable (owner : Descriptor) {r : State × List FieldDef} {n : Nat}

/-- In the current generation the fields left are smaller with each pass. -/
structure Shrinking (n : Nat) (r : State × List FieldDef) : Prop where
  aligned : r.1.Aligned (AlignedAt .current)
  small : ∀ f ∈ r.2, fieldSize f.type < n
  sorted : r.2.Pairwise fun a b => fieldSize b.type ≤ fieldSize a.type

theorem Shrinking.pass (h : Shrinking (2 * n) r) (hn : n = 8 ∨ n = 4 ∨ n = 2 ∨ n = 1) :
    Shrinking n (placePass .current owner n r.1 r.2) := by
  refine ⟨placePass_aligned ?_ h.aligned, ?_, ?_⟩
  · intro f hf hle o ho
    have hsmall := h.small f hf
    have heq : fieldSize f.type = n := by
      rcases fieldSize_cases f.type with hs | hs | hs | hs <;> omega
    show fieldSize f.type ∣ o
    rw [heq] at ho ⊢
    exact ho.elim id id
  · intro f hf
    rw [placePass_rest] at hf
    have hnot := not_of_mem_dropWhile (p := fun f : FieldDef => decide (n ≤ fieldSize f.type))
      (fun _ h => h) (h.sorted.imp fun hab hb => by simp at hb ⊢; omega) f hf
    simpa using hnot
  · rw [placePass_rest]
    exact h.sorted.sublist (List.dropWhile_sublist _)

/-- In the legacy generation neither references nor wide fields are left after the
    first pass, and other fields may be anywhere. -/
structure Unbound (r : State × List FieldDef) : Prop where
  aligned : r.1.Aligned (AlignedAt .legacy)
  left : ∀ f ∈ r.2, f.type.isReference = false ∧ f.type.isWide = false

theorem Unbound.pass (h : Unbound r) (n : Nat) : Unbound (placePass .legacy owner n r.1 r.2) := by
  refine ⟨placePass_aligned ?_ h.aligned, ?_⟩
  · intro f hf _ o _
    obtain ⟨href, hwide⟩ := h.left f hf
    exact ⟨fun h => by simp [FieldDef.ref, href] at h, fun h => by simp [FieldDef.ref, hwide] at h⟩
  · intro f hf
    rw [placePass_rest] at hf
    exact h.left f ((List.dropWhile_sublist _).mem hf)

end Passes

section Layout

variable (owner : Descriptor) {s : State} {own : List FieldDef}

/-- No reference is left for the passes. -/
theorem placeReferences_left {v : ArtLayout}
    (hsorted : own.Pairwise fun a b => (order v a b).isLE) :
    ∀ f ∈ (placeReferences owner s own).2, f.type.isReference = false := by
  rw [placeReferences_rest]
  exact not_of_mem_dropWhile (p := fun f : FieldDef => f.type.isReference) (fun _ h => h)
    (hsorted.imp fun hab hb => reference_of_order hab hb)

theorem placeReferences_sorted {v : ArtLayout}
    (hsorted : own.Pairwise fun a b => (order v a b).isLE) :
    (placeReferences owner s own).2.Pairwise fun a b => (order v a b).isLE := by
  rw [placeReferences_rest]
  exact hsorted.sublist (List.dropWhile_sublist _)

theorem shrinking_references (h : s.Aligned (AlignedAt .current))
    (hsorted : own.Pairwise fun a b => (order .current a b).isLE) :
    Shrinking 16 (placeReferences owner s own) := by
  have hleft := placeReferences_left owner (s := s) hsorted
  refine ⟨placeReferences_aligned (fun f _ href o ho => alignedAt_reference _ href ho) h, ?_, ?_⟩
  · intro f _
    rcases fieldSize_cases f.type with hs | hs | hs | hs <;> omega
  · refine List.Pairwise.imp_of_mem ?_ (placeReferences_sorted owner hsorted)
    intro a b ha _ hab
    exact fieldSize_of_order hab (by simp [hleft a ha])

theorem unbound_first (h : s.Aligned (AlignedAt .legacy))
    (hsorted : own.Pairwise fun a b => (order .legacy a b).isLE) :
    Unbound (placePass .legacy owner 8 (placeReferences owner s own).1
      (placeReferences owner s own).2) := by
  have hleft := placeReferences_left owner (s := s) hsorted
  have hrefs : (placeReferences owner s own).1.Aligned (AlignedAt .legacy) :=
    placeReferences_aligned (fun f _ href o ho => alignedAt_reference _ href ho) h
  refine ⟨placePass_aligned ?_ hrefs, ?_⟩
  · intro f hf hle o ho
    refine ⟨fun h => ?_, fun hwide => ?_⟩
    · simp [FieldDef.ref, hleft f hf] at h
    · have heq : fieldSize f.type = 8 := fieldSize_wide hwide
      rw [heq] at ho
      exact ho.elim id id
  · intro f hf
    rw [placePass_rest] at hf
    refine ⟨hleft f ((List.dropWhile_sublist _).mem hf), ?_⟩
    -- all wide fields have 8 bytes, so the pass has taken them from the front
    refine not_of_mem_dropWhile (p := fun f : FieldDef => f.type.isWide) (fun f hwide => ?_) ?_ f hf
    · simp [fieldSize_wide hwide]
    · refine List.Pairwise.imp_of_mem ?_ (placeReferences_sorted owner hsorted)
      intro a b ha _ hab hb
      exact isWide_of_order hab (by simp [hleft a ha]) hb

end Layout

theorem layout_alignedAt (v : ArtLayout) (owner : Descriptor) {inherited : FieldLayout}
    (own : List FieldDef) (h : ∀ e ∈ inherited.fields, AlignedAt v e) :
    ∀ e ∈ (layout v owner inherited own).fields, AlignedAt v e := by
  have hsorted : (own.mergeSort fun a b => (order v a b).isLE).Pairwise fun a b =>
      (order v a b).isLE := pairwise_mergeSort_order own
  have hstart : (State.mk ((inherited.lastEnd? fieldSize).getD 0) [] inherited).Aligned
      (AlignedAt v) := ⟨by simp, h⟩
  rw [layout_eq_from]
  cases v with
  | current =>
    have hrefs := shrinking_references owner hstart hsorted
    have height := hrefs.pass owner (n := 8) (by simp)
    have hfour := height.pass owner (n := 4) (by simp)
    have htwo := hfour.pass owner (n := 2) (by simp)
    exact (htwo.pass owner (n := 1) (by simp)).aligned.fields
  | legacy =>
    have hfirst := unbound_first owner hstart hsorted
    exact (((hfirst.pass owner 4).pass owner 2).pass owner 1).aligned.fields

end ArtLayout

/-! ## Dalvik -/

namespace DalvikLayout

/-- Where a field may be. -/
def AlignedAt (e : Nat × FieldRef) : Prop :=
  8 ≤ e.1 ∧ 4 ∣ e.1 ∧ (e.2.type.isWide → 8 ∣ e.1)

theorem start_aligned {l : FieldLayout} (h : ∀ e ∈ l.fields, AlignedAt e) :
    8 ≤ (l.lastEnd? fieldSize).getD 8 ∧ (l.lastEnd? fieldSize).getD 8 % 4 = 0 := by
  unfold lastEnd?
  cases hlast : l.fields.getLast? with
  | none => simp
  | some e =>
    obtain ⟨hge, hdvd, -⟩ := h e (List.mem_of_getLast? hlast)
    have hsize : fieldSize e.2.type % 4 = 0 := by
      unfold fieldSize
      split <;> rfl
    simp only [Option.map_some, Option.getD_some]
    omega

theorem layout_alignedAt (owner : Descriptor) {inherited : FieldLayout} (own : List FieldDef)
    (hp : Packed fieldSize inherited.fields) (h : ∀ e ∈ inherited.fields, AlignedAt e) :
    ∀ e ∈ (layout owner inherited own).fields, AlignedAt e := by
  obtain ⟨hge, hstart⟩ := start_aligned h
  have hfields : inherited.fields.Pairwise fun a b => a.1 < b.1 := by
    refine hp.imp fun {a b} hab => ?_
    have := fieldSize_pos a.2.type
    omega
  obtain ⟨a, ha⟩ := layout_arranged owner own hfields rfl hstart
  rw [ha]
  intro e he
  rcases List.mem_append.1 he with he | he
  · exact h e he
  · have hnarrow := a.narrowEnd_aligned hstart
    have hle := a.narrowEnd_le_base
    have hbase : a.base % 4 = 0 := by
      rw [a.base_eq hstart]
      unfold pad
      split <;> omega
    unfold Arrangement.narrowEnd at hnarrow hle
    unfold AlignedAt
    rcases a.offset_of_mem_entries he with
      ⟨-, hw, i, -, heq⟩ | ⟨-, hw, i, heq⟩ | ⟨-, -, i, hi, heq⟩ | ⟨-, hw, i, heq⟩
    · exact ⟨by omega, by omega, fun h => absurd h hw⟩
    · exact ⟨by omega, by omega, fun h => absurd h hw⟩
    · have haligned := a.base_aligned hstart (List.ne_nil_of_length_pos (by omega))
      exact ⟨by omega, by omega, fun _ => by omega⟩
    · exact ⟨by omega, by omega, fun h => absurd h hw⟩

end DalvikLayout

/-! ## All strategies -/

namespace ClassPath

/-- Where a field may be on the runtime of the class path. -/
def AlignedAt (p : ClassPath) (e : Nat × FieldRef) : Prop :=
  match p.runtime.layoutStrategy with
  | .dalvik => DalvikLayout.AlignedAt e
  | .art generation => ArtLayout.AlignedAt generation e

theorem layoutOver_aligned (p : ClassPath) {inherited : FieldLayout} (c : ClassDef)
    (hp : Packed p.fieldSize inherited.fields) (h : ∀ e ∈ inherited.fields, p.AlignedAt e) :
    ∀ e ∈ (p.layoutOver inherited c).fields, p.AlignedAt e := by
  unfold AlignedAt fieldSize layoutOver at *
  cases hs : p.runtime.layoutStrategy with
  | dalvik =>
    simp only [hs] at hp h ⊢
    exact DalvikLayout.layout_alignedAt _ _ hp h
  | art generation =>
    simp only [hs] at h ⊢
    exact ArtLayout.layout_alignedAt _ _ _ h

/-- Every field is aligned: under Dalvik behind the header at a multiple of 4, and of 8
    if it is wide; in the current ART generation at a multiple of its size; in the
    legacy one at a multiple of 4 if it is a reference and of 8 if it is wide. -/
theorem layout_aligned (p : ClassPath) (history : List (Facet × Descriptor)) {d : Descriptor}
    (hd : p.Rooted d) :
    ∃ l : Computed FieldLayout, ((p.layout d).run (p.memoAfter history)).1 = .ok l ∧
      ∀ e ∈ l.value.fields,
        match p.runtime.layoutStrategy with
        | .dalvik => 8 ≤ e.1 ∧ 4 ∣ e.1 ∧ (e.2.type.isWide → 8 ∣ e.1)
        | .art .current => ArtLayout.fieldSize e.2.type ∣ e.1
        | .art .legacy => (e.2.type.isReference → 4 ∣ e.1) ∧ (e.2.type.isWide → 8 ∣ e.1) := by
  obtain ⟨l, a, c, hl, ⟨hp, ha⟩, heq⟩ := hd.layout_over
    (P := fun l => Packed p.fieldSize l.fields ∧ ∀ e ∈ l.fields, p.AlignedAt e)
    ⟨List.Pairwise.nil, by simp [FieldLayout.empty]⟩
    (fun a c h => ⟨(p.layoutOver_extends c h.1).packed, p.layoutOver_aligned c h.1 h.2⟩) history
  refine ⟨l, hl, fun e he => ?_⟩
  rw [heq] at he
  have haligned := p.layoutOver_aligned c hp ha e he
  unfold AlignedAt at haligned
  cases hs : p.runtime.layoutStrategy with
  | dalvik =>
    rw [hs] at haligned
    exact haligned
  | art generation =>
    rw [hs] at haligned
    cases generation <;> exact haligned

end ClassPath

/-! ## Small fields in gaps -/

namespace Sample

/-- Its reference leaves gaps of 1 and 2 bytes behind the field of the root, which the
    last two fields fill. -/
def parcel : ClassDef :=
  { descriptor := "LParcel;", access := ⟨1⟩, superclass := some Descriptor.object
    fields := [⟨"count", "S", ⟨2⟩⟩, ⟨"fragile", "Z", ⟨2⟩⟩, ⟨"label", "Ljava/lang/String;", ⟨2⟩⟩,
      ⟨"weight", "J", ⟨2⟩⟩, ⟨"depth", "I", ⟨2⟩⟩] }

/-- A class path of Android 7. -/
def parcels : ClassPath := ⟨⟨24, noArt⟩, [⟨[root, parcel]⟩], ⟨[]⟩⟩

theorem parcel_rooted : parcels.Rooted "LParcel;" := by
  refine .under (c := parcel) (s := Descriptor.object) (by decide +kernel) rfl ?_
  exact .root (c := root) (by decide +kernel) rfl

def parcelLayout : FieldLayout :=
  ⟨[(0, ⟨Descriptor.object, "locked", "Z"⟩), (1, ⟨"LParcel;", "fragile", "Z"⟩),
    (2, ⟨"LParcel;", "count", "S"⟩), (4, ⟨"LParcel;", "label", "Ljava/lang/String;"⟩),
    (8, ⟨"LParcel;", "weight", "J"⟩), (16, ⟨"LParcel;", "depth", "I"⟩)], 20⟩

theorem layout_parcel :
    ArtLayout.layout .current "LParcel;" rootLayout parcel.instanceFields = parcelLayout := by
  have hsorted : (parcel.instanceFields.mergeSort fun a b =>
      (ArtLayout.order .current a b).isLE) =
      [⟨"label", "Ljava/lang/String;", ⟨2⟩⟩, ⟨"weight", "J", ⟨2⟩⟩, ⟨"depth", "I", ⟨2⟩⟩,
        ⟨"count", "S", ⟨2⟩⟩, ⟨"fragile", "Z", ⟨2⟩⟩] :=
    mergeSort_eq_of_ascending (by decide +kernel) (by decide +kernel)
  unfold ArtLayout.layout
  rw [hsorted]
  decide +kernel

end Sample

open Sample in
theorem parcel_aligned :
    parcels.Rooted "LParcel;" ∧ parcels.runtime.layoutStrategy = .art .current ∧
      ((parcels.layout "LParcel;").run (parcels.memoAfter [(.layout, "LParcel;")])).1 =
        .ok ⟨parcelLayout, true⟩ ∧
      ∃ l : Computed FieldLayout,
        ((parcels.layout "LParcel;").run (parcels.memoAfter [(.layout, "LParcel;")])).1 = .ok l ∧
          ∀ e ∈ l.value.fields, ArtLayout.fieldSize e.2.type ∣ e.1 := by
  have hstrategy : parcels.runtime.layoutStrategy = .art .current := by decide +kernel
  have hlayout : ((parcels.layout "LParcel;").run
      (parcels.memoAfter [(.layout, "LParcel;")])).1 = .ok ⟨parcelLayout, true⟩ := by
    rw [← layout_parcel, ← layout_root .current]
    rfl
  have h := parcels.layout_aligned [(.layout, "LParcel;")] parcel_rooted
  rw [hstrategy] at h
  exact ⟨parcel_rooted, hstrategy, hlayout, h⟩

end SymbolicDex
