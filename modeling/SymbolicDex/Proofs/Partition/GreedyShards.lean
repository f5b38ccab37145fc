import Mathlib.Data.List.Chain
import SymbolicDex.Partition.Shard
import SymbolicDex.Proofs.Partition.ReferenceSets

/- What a partition of a class list is: the first definition of every
   descriptor, in order, cut into files that hold their classes and could not
   have taken one more.

   What is proved:
     1. `Partitioner.inOrder_sorted`, `Partitioner.mem_inOrder`: the classes that are
        kept, one a descriptor, and their order.
     2. `Partitioner.Filled`: what is true of the files while classes are added, with
        a rule for each of the three ways to go on, and `fill_ok` from these.
     3. `Partitioner.fill_error`: only a class too large for any file stops it.
     4. `Partitioner.partition_greedy`: both, for the whole class list. -/
namespace SymbolicDex

/-! ## The classes that are kept, and their order -/

namespace ClassDef

theorem firstDefinitionsAfter_sublist (seen : List Descriptor) (cs : List ClassDef) :
    (firstDefinitionsAfter seen cs).Sublist cs := by
  fun_induction firstDefinitionsAfter seen cs with
  | case1 => exact List.Sublist.refl _
  | case2 seen c cs hseen ih => exact ih.cons c
  | case3 seen c cs hseen ih => exact ih.cons_cons c

theorem mem_firstDefinitionsAfter {seen : List Descriptor} {cs : List ClassDef} {c : ClassDef} :
    c ∈ firstDefinitionsAfter seen cs ↔
      c.descriptor ∉ seen ∧ cs.find? (·.descriptor == c.descriptor) = some c := by
  fun_induction firstDefinitionsAfter seen cs with
  | case1 => simp
  | case2 seen d cs hseen ih =>
    rw [ih]
    by_cases hd : d.descriptor = c.descriptor
    · rw [hd] at hseen
      simp [hseen]
    · rw [List.find?_cons_of_neg (by simpa using hd)]
  | case3 seen d cs hseen ih =>
    rw [List.mem_cons, ih]
    by_cases hd : d.descriptor = c.descriptor
    · rw [hd] at hseen
      simp [hd, hseen, eq_comm]
    · have hne : c ≠ d := fun h => hd (h ▸ rfl)
      rw [List.find?_cons_of_neg (by simpa using hd)]
      simp [hne, Ne.symm hd]

theorem firstDefinitionsAfter_distinct (seen : List Descriptor) (cs : List ClassDef) :
    (firstDefinitionsAfter seen cs).Pairwise fun c d => c.descriptor ≠ d.descriptor := by
  fun_induction firstDefinitionsAfter seen cs with
  | case1 => exact List.Pairwise.nil
  | case2 seen c cs hseen ih => exact ih
  | case3 seen c cs hseen ih =>
    refine List.Pairwise.cons ?_ ih
    intro d hd heq
    exact (mem_firstDefinitionsAfter.1 hd).1 (heq ▸ List.mem_cons_self)

end ClassDef

section Stable

variable {α β : Type} (key : α → β) (order : β → β → Ordering) [Std.TransCmp order] (as : List α)

theorem pairwise_mergeSort_key :
    (as.mergeSort fun a b => (order (key a) (key b)).isLE).Pairwise
      fun a b => (order (key a) (key b)).isLE :=
  List.pairwise_mergeSort (fun _ _ _ => Std.TransCmp.isLE_trans)
    (fun a b => order_total (key a) (key b)) as

/-- Sorting by a key leaves the elements of one key as they were. -/
theorem filter_mergeSort_key [DecidableEq β] (k : β) :
    (as.mergeSort fun a b => (order (key a) (key b)).isLE).filter (key · == k) =
      as.filter (key · == k) := by
  have htied : (as.filter (key · == k)).Pairwise fun a b => (order (key a) (key b)).isLE := by
    refine List.pairwise_of_forall_mem_list ?_
    intro a ha b hb
    simp only [List.mem_filter, beq_iff_eq] at ha hb
    rw [ha.2, hb.2]
    exact Std.ReflCmp.isLE_rfl
  have hkept := List.sublist_mergeSort (fun _ _ _ => Std.TransCmp.isLE_trans)
    (fun a b => order_total (key a) (key b)) htied List.filter_sublist
  have hsub := hkept.filter (key · == k)
  rw [List.filter_filter] at hsub
  simp only [Bool.and_self] at hsub
  refine (hsub.eq_of_length ?_).symm
  exact ((List.mergeSort_perm as _).filter _).length_eq.symm

end Stable

namespace Partitioner

theorem inOrder_sorted (classes : List ClassDef) :
    (inOrder classes).Pairwise fun c d => c.descriptor < d.descriptor := by
  have hsorted := pairwise_mergeSort_key ClassDef.descriptor compare classes
  have hle := hsorted.sublist (ClassDef.firstDefinitionsAfter_sublist [] _)
  refine (hle.and (ClassDef.firstDefinitionsAfter_distinct [] _)).imp ?_
  rintro c d ⟨hle, hne⟩
  have hlt : compare c.descriptor d.descriptor = .lt := order_lt_of_ne hle hne
  exact compareOfLessAndEq_eq_lt.1 hlt

theorem mem_inOrder {classes : List ClassDef} {c : ClassDef} :
    c ∈ inOrder classes ↔ classes.find? (·.descriptor == c.descriptor) = some c := by
  rw [inOrder, ClassDef.firstDefinitions, ClassDef.mem_firstDefinitionsAfter, ← List.head?_filter,
    filter_mergeSort_key ClassDef.descriptor compare, List.head?_filter]
  simp

/-! ## Filling one shard after the other -/

variable {p : Partitioner} {s current : Shard} {cs ds : List ClassDef} {c : ClassDef}

/-- A file can index what the classes declare or name together, and the ten ids more
    that a writer may add. -/
def Holds (p : Partitioner) (cs : List ClassDef) : Prop :=
  (needed ClassDef.NamesField cs).encard + 10 ≤ p.limit ∧
    (needed ClassDef.NamesMethod cs).encard + 10 ≤ p.limit

theorem Holds.mono (hsub : cs ⊆ ds) (h : p.Holds ds) : p.Holds cs := by
  have hfields := Set.encard_le_encard (needed_mono ClassDef.NamesField hsub)
  have hmethods := Set.encard_le_encard (needed_mono ClassDef.NamesMethod hsub)
  exact ⟨le_trans (by gcongr) h.1, le_trans (by gcongr) h.2⟩

theorem fits_iff (h : s.pool.Exact s.classes) : p.fits s c ↔ p.Holds (s.classes ++ [c]) := by
  obtain ⟨hfields, hmethods⟩ := h.projected_eq c
  rw [Holds, ← hfields, ← hmethods, Nat.cast_le, Nat.cast_le]
  simp [fits]

/-- `current` and the files after it, once the classes are added. -/
structure Filled (p : Partitioner) (current : Shard) (cs : List ClassDef) (shards : List Shard) :
    Prop where
  classes : shards.flatMap (·.classes) = current.classes ++ cs
  nonempty : ∀ s ∈ shards, s.classes ≠ []
  indices : shards.map (·.index) = List.range' current.index shards.length
  exact : ∀ s ∈ shards, s.pool.Exact s.classes
  holds : ∀ s ∈ shards, p.Holds s.classes
  greedy : shards.IsChain fun s t => ∀ c ∈ t.classes.head?, ¬p.Holds (s.classes ++ [c])
  first : ∀ s ∈ shards.head?, current.classes <+: s.classes

namespace Filled

variable {shards : List Shard}

theorem nil (hexact : current.pool.Exact current.classes)
    (hholds : current.classes ≠ [] → p.Holds current.classes) :
    p.Filled current [] (if current.classes.isEmpty then [] else [current]) := by
  by_cases hempty : current.classes = []
  · constructor <;> simp [hempty]
  · constructor <;> simp [hempty, hexact, hholds]

theorem add (h : p.Filled (current.add c) cs shards) : p.Filled current (c :: cs) shards where
  classes := by simpa [Shard.add] using h.classes
  nonempty := h.nonempty
  indices := h.indices
  exact := h.exact
  holds := h.holds
  greedy := h.greedy
  first s hs := (List.prefix_append _ _).trans (h.first s hs)

/-- The class that opens the next file is the one the current file had no room for. -/
theorem close (hexact : current.pool.Exact current.classes) (hclasses : current.classes ≠ [])
    (hholds : p.Holds current.classes) (hfull : ¬p.Holds (current.classes ++ [c]))
    (h : p.Filled ((p.newShard (current.index + 1)).add c) cs shards) :
    p.Filled current (c :: cs) (current :: shards) where
  classes := by
    have hrest := h.classes
    simp only [Shard.add, newShard, List.nil_append, List.singleton_append] at hrest
    rw [List.flatMap_cons, hrest]
  nonempty := List.forall_mem_cons.2 ⟨hclasses, h.nonempty⟩
  indices := by
    rw [List.map_cons, h.indices]
    rfl
  exact := List.forall_mem_cons.2 ⟨hexact, h.exact⟩
  holds := List.forall_mem_cons.2 ⟨hholds, h.holds⟩
  greedy := by
    refine List.isChain_cons.2 ⟨?_, h.greedy⟩
    intro t ht d hd
    obtain ⟨rest, hrest⟩ := h.first t ht
    have hcd : c = d := by
      rw [← hrest] at hd
      simpa [Shard.add, newShard] using hd
    exact hcd ▸ hfull
  first := by simp

end Filled

theorem newShard_exact (index : Nat) (c : ClassDef) :
    ((p.newShard index).add c).pool.Exact [c] :=
  IdPool.Exact.empty.intern c

theorem fits_newShard_iff {index : Nat} : p.fits (p.newShard index) c ↔ p.Holds [c] :=
  fits_iff IdPool.Exact.empty

/-- From a file that has the pool of its classes and holds them, unless it is still
    empty. Both are kept while classes are added and when a new file is started. -/
theorem fill_ok (hexact : current.pool.Exact current.classes)
    (hholds : current.classes ≠ [] → p.Holds current.classes) :
    ∀ shards, p.fill current cs = .ok shards → p.Filled current cs shards := by
  fun_induction p.fill current cs with
  | case1 current =>
    rintro shards ⟨⟩
    exact Filled.nil hexact hholds
  | case2 current c cs hfits ih =>
    intro shards h
    exact (ih (hexact.intern c) (fun _ => (fits_iff hexact).1 hfits) shards h).add
  | case3 => rintro shards ⟨⟩
  | case4 current c cs hfull hclasses next hnext ih =>
    intro shards h
    have hclasses : current.classes ≠ [] := by simpa using hclasses
    cases hrest : p.fill (next.add c) cs with
    | error e =>
      rw [hrest] at h
      cases h
    | ok rest =>
      rw [hrest] at h
      cases h
      have hone : p.Holds [c] := fits_newShard_iff.1 hnext
      have hfilled := ih (newShard_exact _ c) (fun _ => hone) rest hrest
      exact hfilled.close hexact hclasses (hholds hclasses) (mt (fits_iff hexact).2 hfull)
  | case5 => rintro shards ⟨⟩

/-- Filling stops only at a class that not even an empty file holds. -/
theorem fill_error (hexact : current.pool.Exact current.classes) :
    ∀ e, p.fill current cs = .error e → ∃ c ∈ cs, ¬p.Holds [c] := by
  fun_induction p.fill current cs with
  | case1 => rintro e ⟨⟩
  | case2 current c cs hfits ih =>
    intro e h
    obtain ⟨d, hd, hlarge⟩ := ih (hexact.intern c) e h
    exact ⟨d, List.mem_cons_of_mem c hd, hlarge⟩
  | case3 current c cs hfull hclasses =>
    intro e h
    have hclasses : current.classes = [] := by simpa using hclasses
    have hlarge := mt (fits_iff hexact).2 hfull
    rw [hclasses, List.nil_append] at hlarge
    exact ⟨c, List.mem_cons_self, hlarge⟩
  | case4 current c cs hfull hclasses next hnext ih =>
    intro e h
    cases hrest : p.fill (next.add c) cs with
    | error e' =>
      obtain ⟨d, hd, hlarge⟩ := ih (newShard_exact _ c) e' hrest
      exact ⟨d, List.mem_cons_of_mem c hd, hlarge⟩
    | ok rest =>
      rw [hrest] at h
      cases h
  | case5 current c cs hfull hclasses next hnext =>
    intro e h
    exact ⟨c, List.mem_cons_self, mt fits_newShard_iff.2 hnext⟩

/-! ## The whole partition -/

/-- The shards are the kept classes in order, cut greedily. -/
structure Splits (p : Partitioner) (classes : List ClassDef) (shards : List Shard) : Prop where
  sorted : (shards.flatMap (·.classes)).Pairwise fun c d => c.descriptor < d.descriptor
  /-- Exactly the first definition of each descriptor is kept. -/
  kept : ∀ c, c ∈ shards.flatMap (·.classes) ↔
    classes.find? (·.descriptor == c.descriptor) = some c
  nonempty : ∀ s ∈ shards, s.classes ≠ []
  indices : shards.map (·.index) = List.range shards.length
  fields : ∀ s ∈ shards, s.pool.fields.Nodup ∧
    (∀ f, f ∈ s.pool.fields ↔ ∃ c ∈ s.classes, c.NamesField f) ∧
      s.pool.fields.length + 10 ≤ p.limit
  methods : ∀ s ∈ shards, s.pool.methods.Nodup ∧
    (∀ m, m ∈ s.pool.methods ↔ ∃ c ∈ s.classes, c.NamesMethod m) ∧
      s.pool.methods.length + 10 ≤ p.limit
  /-- The first class of a shard had no room in the shard before. -/
  greedy : shards.IsChain fun s t => ∀ c ∈ t.classes.head?, ¬p.Holds (s.classes ++ [c])

/-- A pool within the limit, said of the list of its ids. -/
theorem indexes_of_lists {α : Type} [DecidableEq α] {order : α → α → Ordering}
    [Std.ReflCmp order] {ids : List α} {names : ClassDef → α → Prop}
    (h : Lists order ids (needed names cs)) (hcount : (needed names cs).encard + 10 ≤ p.limit) :
    ids.Nodup ∧ (∀ a, a ∈ ids ↔ ∃ c ∈ cs, names c a) ∧ ids.length + 10 ≤ p.limit := by
  rw [h.encard_eq] at hcount
  exact ⟨h.ascending.nodup, h.mem_iff, by exact_mod_cast hcount⟩

theorem Filled.splits {classes : List ClassDef} {shards : List Shard}
    (h : p.Filled (p.newShard 0) (inOrder classes) shards) : p.Splits classes shards where
  sorted := by
    rw [h.classes]
    exact inOrder_sorted classes
  kept c := by
    rw [h.classes]
    exact mem_inOrder
  nonempty := h.nonempty
  indices := by
    rw [h.indices, List.range_eq_range']
    rfl
  fields s hs := indexes_of_lists (h.exact s hs).fields (h.holds s hs).1
  methods s hs := indexes_of_lists (h.exact s hs).methods (h.holds s hs).2
  greedy := h.greedy

theorem Filled.holds_singleton {classes : List ClassDef} {shards : List Shard}
    (h : p.Filled (p.newShard 0) (inOrder classes) shards) (hc : c ∈ inOrder classes) :
    p.Holds [c] := by
  have hmem : c ∈ shards.flatMap (·.classes) := by
    rw [h.classes]
    exact hc
  obtain ⟨s, hs, hcs⟩ := List.mem_flatMap.1 hmem
  exact (h.holds s hs).mono (by simpa using hcs)

/-- A class list cannot be partitioned exactly when a class that is kept is too
    large for a file of its own; otherwise the shards split it. -/
theorem partition_greedy (p : Partitioner) (classes : List ClassDef) :
    ((∃ e, p.partition classes = .error e) ↔
      ∃ c, classes.find? (·.descriptor == c.descriptor) = some c ∧ ¬p.Holds [c]) ∧
    ((∃ e, p.partition classes = .error e) ∨
      ∃ shards, p.partition classes = .ok shards ∧ p.Splits classes shards) := by
  cases hpart : p.partition classes with
  | error e =>
    obtain ⟨c, hc, hlarge⟩ := fill_error IdPool.Exact.empty e hpart
    refine ⟨⟨fun _ => ⟨c, mem_inOrder.1 hc, hlarge⟩, fun _ => ⟨e, rfl⟩⟩, .inl ⟨e, rfl⟩⟩
  | ok shards =>
    have hfilled := fill_ok IdPool.Exact.empty (absurd rfl) shards hpart
    refine ⟨⟨fun ⟨e, he⟩ => (nomatch he), ?_⟩, .inr ⟨shards, rfl, hfilled.splits⟩⟩
    rintro ⟨c, hc, hlarge⟩
    exact absurd (hfilled.holds_singleton (mem_inOrder.2 hc)) hlarge

end Partitioner

end SymbolicDex
