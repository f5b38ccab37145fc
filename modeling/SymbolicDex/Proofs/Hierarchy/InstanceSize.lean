import SymbolicDex.Proofs.Hierarchy.FieldAlignment

/- The size of an instance is where its last field ends, and so where a subclass goes
   on. A subclass does not read the size: it starts from the end of the last field of
   the layout that it inherits. The size in turn is the offset behind everything
   placed. That the two agree is at risk in ART only, where the offset is brought to a
   multiple before a field is placed: if the field then went into a gap, bytes would
   be left behind the last field. It does not, for a pass has to skip bytes only while
   all gaps are too small for its fields (`ArtLayout.State.Ready`).

   What is proved:
     1. `FieldLayout.EndsAt.lastEnd_eq`, `FieldLayout.EndsAt.of_highest`: what it means
        for a layout to end at an offset.
     2. `DalvikLayout.place_endsAt`: each field ends at the next offset.
     3. `ArtLayout.State.place_flush`, `ArtLayout.placePass_even`: what a field and a
        pass keep, and what they leave for the next pass.
     4. `layoutOver_endsAt`: the layout of a class ends at its size.
     5. `size_where_subclasses_start`: for every class with a rooted superclass chain,
        after any history. -/
namespace SymbolicDex

namespace FieldLayout

variable {size : Descriptor → Nat} {header offset : Nat} {l : FieldLayout}

/-- No field goes beyond the offset, and one ends there; without fields it is where the
    first would be. -/
structure EndsAt (size : Descriptor → Nat) (header : Nat) (l : FieldLayout) (offset : Nat) :
    Prop where
  below : Below size l.fields offset
  reached : (∃ e ∈ l.fields, e.1 + size e.2.type = offset) ∨ (l.fields = [] ∧ offset = header)

/-- Packed fields end where the last of them does. -/
theorem EndsAt.lastEnd_eq (h : EndsAt size header l offset) (hp : Packed size l.fields) :
    (l.lastEnd? size).getD header = offset := by
  have hbelow := below_lastEnd hp header
  rcases h.reached with ⟨e, he, hend⟩ | ⟨hnil, heq⟩
  · have hle := hbelow e he
    refine Nat.le_antisymm ?_ (hend ▸ hle)
    unfold lastEnd?
    cases hlast : l.fields.getLast? with
    | none =>
      rw [List.getLast?_eq_none_iff] at hlast
      simp [hlast] at he
    | some last => exact h.below last (List.mem_of_getLast? hlast)
  · simp [lastEnd?, hnil, heq]

theorem endsAt_lastEnd (header : Nat) (hp : Packed size l.fields) :
    EndsAt size header l ((l.lastEnd? size).getD header) := by
  refine ⟨below_lastEnd hp header, ?_⟩
  unfold lastEnd?
  cases hlast : l.fields.getLast? with
  | none => exact .inr ⟨List.getLast?_eq_none_iff.1 hlast, rfl⟩
  | some last => exact .inl ⟨last, List.mem_of_getLast? hlast, rfl⟩

/-- No byte belongs to both fields. -/
def Apart (size : Descriptor → Nat) (a b : Nat × FieldRef) : Prop :=
  a.1 + size a.2.type ≤ b.1 ∨ b.1 + size b.2.type ≤ a.1

instance instSymmApart : Std.Symm (Apart size) := ⟨fun _ _ => Or.symm⟩

/-- The field with the highest offset is the one that ends there. -/
theorem EndsAt.of_highest (h : EndsAt size header l offset) (hp : Packed size l.fields)
    (hpos : ∀ d, 0 < size d) {e : Nat × FieldRef} (he : e ∈ l.fields)
    (hhighest : ∀ e' ∈ l.fields, e'.1 ≤ e.1) : e.1 + size e.2.type = offset := by
  rcases h.reached with ⟨last, hlast, hend⟩ | ⟨hnil, -⟩
  · by_cases heq : e = last
    · rw [heq]
      exact hend
    · have hapart : l.fields.Pairwise (Apart size) := hp.imp .inl
      have hsize := hpos e.2.type
      have hle := h.below e he
      have hle' := hhighest last hlast
      rcases hapart.forall he hlast heq with h' | h' <;> omega
  · simp [hnil] at he

theorem mem_insertAt_self (offset : Nat) (f : FieldRef) (fields : List (Nat × FieldRef)) :
    (offset, f) ∈ insertAt offset f fields := by
  induction fields with
  | nil => simp [insertAt]
  | cons e es ih =>
    simp only [insertAt]
    split
    · exact List.mem_cons_self
    · split
      · exact List.mem_cons_self
      · exact List.mem_cons_of_mem _ ih

/-- A field placed behind all others ends last. -/
theorem endsAt_insert (header : Nat) {start : Nat} (hb : Below size l.fields offset)
    (hle : offset ≤ start) (f : FieldRef) : EndsAt size header (l.insert start f) (start + size f.type) := by
  refine ⟨fun e he => ?_, .inl ⟨_, mem_insertAt_self start f l.fields, rfl⟩⟩
  rcases mem_insertAt he with rfl | he
  · exact Nat.le_refl _
  · have := hb e he
    omega

end FieldLayout

open FieldLayout

/-! ## Dalvik -/

namespace DalvikLayout

theorem place_endsAt (owner : Descriptor) (own : List FieldDef) {seenWide : Bool} {offset : Nat}
    {l : FieldLayout} (h : EndsAt fieldSize 8 l offset) :
    EndsAt fieldSize 8 (place owner seenWide offset l own)
      (place owner seenWide offset l own).size := by
  induction own generalizing seenWide offset l with
  | nil => exact ⟨h.below, h.reached⟩
  | cons f fs ih =>
    simp only [place]
    refine ih (endsAt_insert 8 h.below ?_ (f.ref owner))
    split <;> omega

end DalvikLayout

/-! ## ART -/

namespace ArtLayout

namespace State

variable {s : State} {n m : Nat} {owner : Descriptor} {f : FieldDef}

/-- The last field ends at the offset. -/
def Flush (s : State) : Prop := EndsAt fieldSize 0 s.layout s.offset

/-- No bytes are skipped to a multiple of `n` while a gap has `n` bytes. -/
def Ready (n : Nat) (s : State) : Prop := n ∣ s.offset ∨ ∀ g ∈ s.gaps, g.size < n

/-- Since there have been gaps, the offset is a multiple of `n`. -/
def Level (n : Nat) (s : State) : Prop := s.gaps = [] ∨ n ∣ s.offset

theorem Level.ready (h : s.Level n) : s.Ready n := by
  rcases h with h | h
  · exact .inr (by simp [h])
  · exact .inl h

theorem Level.mono (h : s.Level n) (hm : m ∣ n) : s.Level m :=
  h.imp_right (Nat.dvd_trans hm)

theorem align_of_dvd (hn : 0 < n) (h : n ∣ s.offset) : s.align n = s := by
  obtain ⟨k, hk⟩ := h
  have hoffset : (s.offset + n - 1) / n * n = s.offset := by
    rw [hk, Nat.add_sub_assoc hn, Nat.mul_add_div hn, Nat.div_eq_of_lt (by omega), Nat.add_zero,
      Nat.mul_comm]
  simp [State.align, hoffset, gapsBetween, split]

/-- The bytes skipped are fewer than `n`. -/
theorem gaps_align_lt (hn : 0 < n) (h : ∀ g ∈ s.gaps, g.size < n) :
    ∀ g ∈ (s.align n).gaps, g.size < n := by
  intro g hg
  rcases List.mem_append.1 hg with hg | hg
  · exact h g hg
  · have hwithin := gapsBetween_within hg
    have hle := Nat.div_mul_le_self (s.offset + n - 1) n
    omega

theorem place_of_small {v : ArtLayout} {r : FieldRef}
    (h : ∀ g ∈ s.gaps, g.size < fieldSize r.type) :
    s.place v r = s.append r (fieldSize r.type) := by
  unfold State.place
  dsimp only
  split
  · next g hg => rw [if_neg (Nat.not_le.2 (h g (mem_of_firstGap? hg)))]
  · rfl

theorem append_flush (hs : s.Sound) (hn : fieldSize f.type = n) :
    (s.append (f.ref owner) n).Flush := by
  have h := endsAt_insert 0 hs.below (Nat.le_refl s.offset) (f.ref owner)
  rwa [show fieldSize (f.ref owner).type = n from hn] at h

theorem fill_flush (hs : s.Sound) (h : s.Flush) {g : Gap} (hg : g ∈ s.gaps)
    (hfit : fieldSize f.type ≤ g.size) : (s.fill g (f.ref owner) (fieldSize f.type)).Flush := by
  have hsound : (s.fill g (f.ref owner) (fieldSize f.type)).Sound := hs.fill hg hfit
  refine ⟨hsound.below, ?_⟩
  have hfree := hs.gap_front hg hfit
  rcases h.reached with ⟨e, he, hend⟩ | ⟨-, hzero⟩
  · refine .inl ⟨e, ?_, hend⟩
    exact (insertAt_perm fieldSize_pos (f := f.ref owner) hfree).mem_iff.2
      (List.mem_cons_of_mem _ he)
  · -- an empty layout ends at 0, and no gap is below that
    have hbelow := hs.gaps_below g hg
    have hpos := fieldSize_pos f.type
    omega

/-- A field of at least `n` bytes goes into a gap only if no bytes were skipped. -/
theorem place_flush (v : ArtLayout) (owner : Descriptor) (hs : s.Sound) (h : s.Flush)
    (hready : s.Ready n) (hn : 0 < n) (hle : n ≤ fieldSize f.type) (hdvd : n ∣ fieldSize f.type) :
    ((s.align n).place v (f.ref owner)).Flush ∧
      n ∣ ((s.align n).place v (f.ref owner)).offset := by
  rcases hready with haligned | hsmall
  · rw [align_of_dvd hn haligned]
    unfold State.place
    dsimp only
    split
    · next g hg =>
      split
      · next hfit => exact ⟨fill_flush hs h (mem_of_firstGap? hg) hfit, haligned⟩
      · exact ⟨append_flush hs rfl, Nat.dvd_add haligned hdvd⟩
    · exact ⟨append_flush hs rfl, Nat.dvd_add haligned hdvd⟩
  · have hgaps : ∀ g ∈ (s.align n).gaps, g.size < fieldSize (f.ref owner).type := fun g hg =>
      Nat.lt_of_lt_of_le (gaps_align_lt hn hsmall g hg) hle
    rw [place_of_small hgaps]
    exact ⟨append_flush (hs.align hn) rfl, Nat.dvd_add (s.dvd_align n) hdvd⟩

end State

section Loops

variable {s : State} {owner : Descriptor} {own : List FieldDef} {n m : Nat}

theorem dvd_fieldSize (hn : n = 8 ∨ n = 4 ∨ n = 2 ∨ n = 1) {d : Descriptor}
    (hle : n ≤ fieldSize d) : n ∣ fieldSize d := by
  rcases hn with rfl | rfl | rfl | rfl <;> rcases fieldSize_cases d with h | h | h | h <;>
    rw [h] at hle ⊢ <;> omega

/-- What the loops keep: the last field ends at the offset, which since there have been
    gaps is a multiple of `m`. -/
structure Even (m : Nat) (s : State) : Prop where
  sound : s.Sound
  flush : s.Flush
  level : s.Level m

theorem placeReferences_even (owner : Descriptor) (own : List FieldDef) (h : Even 4 s) :
    Even 4 (placeReferences owner s own).1 := by
  induction own generalizing s with
  | nil => exact h
  | cons f fs ih =>
    simp only [placeReferences]
    split
    · next href =>
      have hsize := fieldSize_reference href
      have ha := h.sound.align (show 0 < 4 by decide)
      refine ih ⟨ha.append hsize, State.append_flush ha hsize, .inr ?_⟩
      exact Nat.dvd_add (s.dvd_align 4) (Nat.dvd_refl 4)
    · exact h

/-- A pass for fields of `n` bytes hands on what the next one needs. -/
theorem placePass_even (v : ArtLayout) (hn : n = 8 ∨ n = 4 ∨ n = 2 ∨ n = 1) (hm : m ∣ n)
    (h : Even m s) (hready : s.Ready n) : Even m (placePass v owner n s own).1 := by
  have hpos : 0 < n := by omega
  induction own generalizing s with
  | nil => exact h
  | cons f fs ih =>
    simp only [placePass]
    split
    · exact h
    · next hsize =>
      have hle : n ≤ fieldSize f.type := Nat.le_of_not_lt hsize
      obtain ⟨hflush, hdvd⟩ := State.place_flush v owner h.sound h.flush hready hpos hle
        (dvd_fieldSize hn hle)
      have hsound := ((h.sound.align hpos).place owner f v).1
      exact ih ⟨hsound, hflush, .inr (Nat.dvd_trans hm hdvd)⟩ (.inl hdvd)

/-- The first pass has no use for a gap: none has more than 4 bytes. -/
theorem placePass_even_first (v : ArtLayout) (h : Even 4 s) (hgaps : s.Aligned fun _ => True) :
    Even 4 (placePass v owner 8 s own).1 := by
  refine placePass_even v (by simp) (by decide) h (.inr fun g hg => ?_)
  have := (hgaps.gaps g hg).size
  omega

theorem placePass_even_next (v : ArtLayout) (hn : n = 4 ∨ n = 2 ∨ n = 1) (hm : m ∣ n)
    (h : Even n s) : Even m (placePass v owner n s own).1 :=
  placePass_even v (.inr hn) hm ⟨h.sound, h.flush, h.level.mono hm⟩ h.level.ready

end Loops

theorem layoutFrom_endsAt (v : ArtLayout) (owner : Descriptor) {start : Nat}
    {inherited : FieldLayout} (own : List FieldDef) (hp : Packed fieldSize inherited.fields)
    (h : EndsAt fieldSize 0 inherited start) :
    EndsAt fieldSize 0 (layoutFrom v owner start inherited own)
      (layoutFrom v owner start inherited own).size := by
  unfold layoutFrom
  generalize own.mergeSort (fun a b => (order v a b).isLE) = sorted
  have hstart : Even 4 ⟨start, [], inherited⟩ := by
    refine ⟨⟨hp, h.below, ?_, List.Pairwise.nil, ?_⟩, h, .inl rfl⟩ <;> simp
  have hgaps : (State.mk start [] inherited).Aligned fun _ => True := ⟨by simp, by simp⟩
  have hrefs := placeReferences_even owner sorted hstart
  have hgaps : (placeReferences owner ⟨start, [], inherited⟩ sorted).1.Aligned fun _ => True :=
    placeReferences_aligned (fun _ _ _ _ _ => trivial) hgaps
  generalize placeReferences owner ⟨start, [], inherited⟩ sorted = r at hrefs hgaps
  have hlast : Even 1 ([8, 4, 2, 1].foldl (fun r n => placePass v owner n r.1 r.2) r).1 := by
    refine placePass_even_next v (by simp) (by decide) ?_
    refine placePass_even_next v (by simp) (by decide) ?_
    refine placePass_even_next v (by simp) (by decide) ?_
    exact placePass_even_first v hrefs hgaps
  exact ⟨hlast.flush.below, hlast.flush.reached⟩

end ArtLayout

/-! ## All strategies -/

namespace ClassPath

/-- Where the first field of an object is. -/
def headerSize (p : ClassPath) : Nat :=
  match p.runtime.layoutStrategy with
  | .dalvik => 8
  | .art _ => 0

/-- The layout of a class whose own fields are placed from `start` on. -/
def layoutFrom (p : ClassPath) (start : Nat) (inherited : FieldLayout) (c : ClassDef) :
    FieldLayout :=
  match p.runtime.layoutStrategy with
  | .dalvik =>
    DalvikLayout.place c.descriptor false start inherited
      (DalvikLayout.ordered start c.instanceFields)
  | .art generation =>
    ArtLayout.layoutFrom generation c.descriptor start inherited c.instanceFields

/-- A class starts from the end of the last field that it inherits. -/
theorem layoutOver_eq_from (p : ClassPath) (inherited : FieldLayout) (c : ClassDef) :
    p.layoutOver inherited c =
      p.layoutFrom ((inherited.lastEnd? p.fieldSize).getD p.headerSize) inherited c := by
  unfold layoutOver layoutFrom fieldSize headerSize
  cases p.runtime.layoutStrategy <;> rfl

theorem layoutOver_endsAt (p : ClassPath) {inherited : FieldLayout} (c : ClassDef)
    (hp : Packed p.fieldSize inherited.fields) :
    EndsAt p.fieldSize p.headerSize (p.layoutOver inherited c) (p.layoutOver inherited c).size := by
  rw [layoutOver_eq_from]
  have h := endsAt_lastEnd p.headerSize hp
  generalize (inherited.lastEnd? p.fieldSize).getD p.headerSize = start at h
  unfold fieldSize headerSize layoutFrom at *
  cases hs : p.runtime.layoutStrategy with
  | dalvik =>
    simp only [hs] at hp h ⊢
    exact DalvikLayout.place_endsAt _ _ h
  | art generation =>
    simp only [hs] at hp h ⊢
    exact ArtLayout.layoutFrom_endsAt _ _ _ hp h

/-- The size of an instance is where the field with the highest offset ends, and no
    field ends behind that; without fields it is the size of the header. A subclass
    finds the size as the end of the last field that it inherits, and so places its
    own fields from there on. -/
theorem size_where_subclasses_start (p : ClassPath) (history : List (Facet × Descriptor))
    {d : Descriptor} (hd : p.Rooted d) :
    ∃ l : Computed FieldLayout, ((p.layout d).run (p.memoAfter history)).1 = .ok l ∧
      (∀ e ∈ l.value.fields, (∀ e' ∈ l.value.fields, e'.1 ≤ e.1) →
        l.value.size = e.1 + p.fieldSize e.2.type ∧
        ∀ e' ∈ l.value.fields, e'.1 + p.fieldSize e'.2.type ≤ e.1 + p.fieldSize e.2.type) ∧
      (l.value.fields = [] → l.value.size =
        match p.runtime.layoutStrategy with
        | .dalvik => 8
        | .art _ => 0) ∧
      (l.value.lastEnd? p.fieldSize).getD p.headerSize = l.value.size ∧
      ∀ c, p.layoutOver l.value c = p.layoutFrom l.value.size l.value c := by
  obtain ⟨l, a, c, hl, ha, heq⟩ := hd.layout_over (P := fun l => Packed p.fieldSize l.fields)
    List.Pairwise.nil (fun a c h => (p.layoutOver_extends c h).packed) history
  have hpacked : Packed p.fieldSize l.value.fields := by
    rw [heq]
    exact (p.layoutOver_extends c ha).packed
  have hends : EndsAt p.fieldSize p.headerSize l.value l.value.size := by
    rw [heq]
    exact p.layoutOver_endsAt c ha
  have hlast := hends.lastEnd_eq hpacked
  refine ⟨l, hl, ?_, ?_, hlast, ?_⟩
  · intro e he hhighest
    have hsize := hends.of_highest hpacked p.fieldSize_pos he hhighest
    refine ⟨hsize.symm, fun e' he' => ?_⟩
    rw [hsize]
    exact hends.below e' he'
  · intro hnil
    rw [← hlast]
    simp [lastEnd?, hnil, headerSize]
  · intro c
    rw [layoutOver_eq_from, hlast]

end ClassPath

open Sample in
theorem parcel_size :
    parcels.Rooted "LParcel;" ∧
      ((parcels.layout "LParcel;").run (parcels.memoAfter [])).1 = .ok ⟨parcelLayout, true⟩ ∧
      (parcelLayout.lastEnd? parcels.fieldSize).getD parcels.headerSize = 20 ∧
      ∃ l : Computed FieldLayout,
        ((parcels.layout "LParcel;").run (parcels.memoAfter [])).1 = .ok l ∧
        (∀ e ∈ l.value.fields, (∀ e' ∈ l.value.fields, e'.1 ≤ e.1) →
          l.value.size = e.1 + parcels.fieldSize e.2.type) ∧
        ∀ c, parcels.layoutOver l.value c = parcels.layoutFrom l.value.size l.value c := by
  have hlayout : ((parcels.layout "LParcel;").run (parcels.memoAfter [])).1 =
      .ok ⟨parcelLayout, true⟩ := by
    rw [← layout_parcel, ← layout_root .current]
    rfl
  obtain ⟨l, hl, hhighest, -, hlast, hstart⟩ :=
    parcels.size_where_subclasses_start [] parcel_rooted
  obtain rfl : l = ⟨parcelLayout, true⟩ := Except.ok.inj (hl.symm.trans hlayout)
  exact ⟨parcel_rooted, hlayout, hlast, _, hl, fun e he h => (hhighest e he h).1, hstart⟩

end SymbolicDex
