import Mathlib.Data.List.TakeWhile
import Mathlib.Data.Set.Card
import SymbolicDex.Partition.IdPool

/- The id pools of output files as sets. A pool lists references in strictly
   ascending order, so it has one entry for each, and the count made before a
   class is added is the size of a union.

   What is proved:
     1. `sortedDistinct_ascending`, `mem_sortedDistinct`: sorting and dropping
        repetitions lists the elements, each once and in order.
     2. `countMissing_eq`: one walk up two such lists counts what the first lacks.
     3. `ClassDef.mem_fieldRefs`, `ClassDef.mem_methodRefs`: the references of a class
        are those of its members and those that the instructions in the bodies of
        its methods have.
     4. `IdPool.Exact.intern`, `IdPool.Exact.projected_eq`: a pool is what its
        classes declare and name, and the count made before a class is added is
        that of the pool it will be. -/
namespace SymbolicDex

/-! ## Ascending lists -/

section Ascending

variable {α : Type} {order : α → α → Ordering} {a b : α} {as bs : List α}

/-- In order and without repetitions. -/
def Ascending (order : α → α → Ordering) (as : List α) : Prop :=
  as.Pairwise fun a b => order a b = .lt

instance : Decidable (Ascending order as) :=
  inferInstanceAs (Decidable (as.Pairwise fun a b => order a b = .lt))

theorem order_ne_lt_self [Std.ReflCmp order] : order a a ≠ .lt := by
  have hself : order a a = .eq := Std.ReflCmp.compare_self
  simp [hself]

theorem order_ne_lt_symm [Std.OrientedCmp order] (h : order a b = .lt) : order b a ≠ .lt := by
  have hgt : order b a = .gt := Std.OrientedCmp.gt_of_lt h
  simp [hgt]

theorem order_total [Std.OrientedCmp order] (a b : α) :
    ((order a b).isLE || (order b a).isLE) = true := by
  have hswap : order b a = (order a b).swap := Std.OrientedCmp.eq_swap
  rw [hswap]
  cases order a b <;> rfl

theorem order_lt_of_ne [Std.LawfulEqCmp order] (h : (order a b).isLE) (hne : a ≠ b) :
    order a b = .lt := by
  cases hab : order a b with
  | lt => rfl
  | eq => exact absurd (Std.LawfulEqCmp.eq_of_compare hab) hne
  | gt => rw [hab] at h; cases h

theorem Ascending.nodup [Std.ReflCmp order] (h : Ascending order as) : as.Nodup := by
  refine List.Pairwise.imp ?_ h
  rintro a b hab rfl
  exact order_ne_lt_self hab

/-- What is left of a list once everything before `b` is passed over. -/
theorem mem_dropWhile_lt (hb : order a b ≠ .lt) :
    a ∈ (as.dropWhile fun a => order a b = .lt) ↔ a ∈ as := by
  constructor
  · exact (List.dropWhile_sublist _).mem
  · intro h
    rw [← List.takeWhile_append_dropWhile (p := fun a => decide (order a b = .lt)) (l := as),
      List.mem_append] at h
    rcases h with h | h
    · exact absurd (by simpa using List.mem_takeWhile_imp h) hb
    · exact h

theorem Ascending.dropWhile_lt (h : Ascending order as) :
    Ascending order (as.dropWhile fun a => order a b = .lt) :=
  h.sublist (List.dropWhile_sublist _)

/-- What the walk finds first is the element it looks for, if it is there. -/
theorem head?_dropWhile_lt [Std.TransCmp order] (h : Ascending order as) :
    (as.dropWhile fun a => order a b = .lt).head? = some b ↔ b ∈ as := by
  rw [← mem_dropWhile_lt (order_ne_lt_self : order b b ≠ .lt)]
  have hrest := h.dropWhile_lt (b := b)
  have hstop := List.head?_dropWhile_not (fun a => decide (order a b = .lt)) as
  revert hrest hstop
  cases as.dropWhile fun a => order a b = .lt with
  | nil => simp
  | cons c rest =>
    intro hrest hstop
    have hcb : order c b ≠ .lt := by simpa using hstop
    have hnot : b ∉ rest := fun hb => hcb ((List.pairwise_cons.1 hrest).1 b hb)
    simp [hnot, eq_comm]

variable [DecidableEq α]

@[simp] theorem mem_dropRepeats : a ∈ dropRepeats as ↔ a ∈ as := by
  fun_induction dropRepeats as with
  | case1 => rfl
  | case2 => rfl
  | case3 b rest ih => rw [ih]; simp
  | case4 b c rest hne ih => rw [List.mem_cons, ih, List.mem_cons (b := b)]

theorem dropRepeats_ascending [Std.TransCmp order] [Std.LawfulEqCmp order]
    (h : as.Pairwise fun a b => (order a b).isLE) : Ascending order (dropRepeats as) := by
  fun_induction dropRepeats as with
  | case1 => exact List.Pairwise.nil
  | case2 => exact List.pairwise_singleton _ _
  | case3 b rest ih => exact ih (List.pairwise_cons.1 h).2
  | case4 b c rest hne ih =>
    obtain ⟨hb, hrest⟩ := List.pairwise_cons.1 h
    refine List.Pairwise.cons ?_ (ih hrest)
    intro d hd
    have hd := mem_dropRepeats.1 hd
    refine order_lt_of_ne (hb d hd) ?_
    -- a later occurrence would have the next element between it and the first
    rintro rfl
    have hcb : (order c b).isLE := by
      rcases List.mem_cons.1 hd with rfl | hd
      · exact hb b List.mem_cons_self
      · exact (List.pairwise_cons.1 hrest).1 b hd
    have hbc := hb c List.mem_cons_self
    exact hne (Std.LawfulEqCmp.eq_of_compare (Std.OrientedCmp.isLE_antisymm hbc hcb))

@[simp] theorem mem_sortedDistinct : a ∈ sortedDistinct order as ↔ a ∈ as := by
  simp [sortedDistinct]

theorem sortedDistinct_ascending [Std.TransCmp order] [Std.LawfulEqCmp order] (as : List α) :
    Ascending order (sortedDistinct order as) :=
  dropRepeats_ascending
    (List.pairwise_mergeSort (fun _ _ _ => Std.TransCmp.isLE_trans) order_total as)

theorem countMissing_eq [Std.TransCmp order] (has : Ascending order as)
    (hbs : Ascending order bs) : countMissing order as bs = (bs.filter (· ∉ as)).length := by
  induction bs generalizing as with
  | nil => rfl
  | cons b bs ih =>
    obtain ⟨hb, hbs⟩ := List.pairwise_cons.1 hbs
    -- nothing passed over on the way to `b` equals an element after `b`
    have hrest : bs.filter (· ∉ as.dropWhile fun a => order a b = .lt) = bs.filter (· ∉ as) := by
      refine List.filter_congr ?_
      intro c hc
      simp only [mem_dropWhile_lt (order_ne_lt_symm (hb c hc))]
    rw [countMissing, ih has.dropWhile_lt hbs, hrest, List.filter_cons]
    by_cases hmem : b ∈ as <;> simp [head?_dropWhile_lt has, hmem]

theorem encard_of_nodup (h : as.Nodup) : {a | a ∈ as}.encard = as.length := by
  rw [← List.coe_toFinset, Set.encard_coe_eq_coe_finsetCard, List.toFinset_card_of_nodup h]

/-- `as` has the elements of `s`, each once and in order. -/
structure Lists (order : α → α → Ordering) (as : List α) (s : Set α) : Prop where
  ascending : Ascending order as
  mem_iff : ∀ a, a ∈ as ↔ a ∈ s

namespace Lists

variable {s t : Set α}

theorem encard_eq [Std.ReflCmp order] (h : Lists order as s) : s.encard = as.length := by
  have hset : s = {a | a ∈ as} := Set.ext fun a => (h.mem_iff a).symm
  rw [hset, encard_of_nodup h.ascending.nodup]

theorem merged [Std.TransCmp order] [Std.LawfulEqCmp order] (has : Lists order as s)
    (hbs : Lists order bs t) : Lists order (sortedDistinct order (as ++ bs)) (s ∪ t) where
  ascending := sortedDistinct_ascending _
  mem_iff a := by rw [mem_sortedDistinct, List.mem_append, has.mem_iff, hbs.mem_iff, Set.mem_union]

theorem encard_union [Std.TransCmp order] (has : Lists order as s) (hbs : Lists order bs t) :
    (s ∪ t).encard = (as.length + countMissing order as bs : Nat) := by
  have hset : s ∪ t = {a | a ∈ as ++ bs.filter (· ∉ as)} := by
    ext a
    simp only [Set.mem_union, ← has.mem_iff, ← hbs.mem_iff, Set.mem_ofPred_eq, List.mem_append,
      List.mem_filter, decide_eq_true_eq]
    tauto
  have hnodup : (as ++ bs.filter (· ∉ as)).Nodup := by
    refine has.ascending.nodup.append (hbs.ascending.nodup.filter _) ?_
    intro a ha hnew
    exact of_decide_eq_true (List.mem_filter.1 hnew).2 ha
  rw [hset, encard_of_nodup hnodup, List.length_append,
    countMissing_eq has.ascending hbs.ascending]

end Lists

end Ascending

/-! ## The orders of references -/

instance FieldRef.instTransCmp : Std.TransCmp FieldRef.compare :=
  inferInstanceAs (Std.TransCmp (compareLex (compareLex (compareOn FieldRef.owner)
    (compareOn FieldRef.name)) (compareOn FieldRef.type)))

instance FieldRef.instLawfulEqCmp : Std.LawfulEqCmp FieldRef.compare where
  eq_of_compare {a b} h := by
    cases a
    cases b
    simpa [FieldRef.compare, Ordering.then_eq_eq, and_assoc] using h

instance Prototype.instTransCmp : Std.TransCmp Prototype.compare :=
  inferInstanceAs (Std.TransCmp (compareLex (compareOn Prototype.params)
    (compareOn Prototype.result)))

instance Prototype.instLawfulEqCmp : Std.LawfulEqCmp Prototype.compare where
  eq_of_compare {a b} h := by
    cases a
    cases b
    simpa [Prototype.compare, Ordering.then_eq_eq] using h

instance MethodRef.instTransCmp : Std.TransCmp MethodRef.compare :=
  let _ : Ord Prototype := ⟨Prototype.compare⟩
  have : Std.TransOrd Prototype := Prototype.instTransCmp
  inferInstanceAs (Std.TransCmp (compareLex (compareLex (compareOn MethodRef.owner)
    (compareOn MethodRef.name)) (compareOn MethodRef.prototype)))

instance MethodRef.instLawfulEqCmp : Std.LawfulEqCmp MethodRef.compare where
  eq_of_compare {a b} h := by
    cases a
    cases b
    simpa [MethodRef.compare, Ordering.then_eq_eq, and_assoc] using h

/-! ## What classes need -/

theorem Instruction.fieldRef?_eq_some {i : Instruction} {f : FieldRef} :
    i.fieldRef? = some f ↔ i.reference = some (.field f) := by
  unfold fieldRef?
  split <;> simp_all

theorem Instruction.methodRef?_eq_some {i : Instruction} {m : MethodRef} :
    i.methodRef? = some m ↔ i.reference = some (.method m) := by
  unfold methodRef?
  split <;> simp_all

namespace ClassDef

variable {c : ClassDef}

/-- An instruction in the body of one of the methods has the reference. -/
def CodeNames (c : ClassDef) (r : Reference) : Prop :=
  ∃ m ∈ c.methods, ∃ code, m.code = some code ∧ ∃ i ∈ code.instructions, i.reference = some r

/-- The class declares the field, or its code names it. -/
def NamesField (c : ClassDef) (f : FieldRef) : Prop :=
  (∃ d ∈ c.fields, ⟨c.descriptor, d.name, d.type⟩ = f) ∨ c.CodeNames (.field f)

/-- The class declares the method, or its code names it. -/
def NamesMethod (c : ClassDef) (m : MethodRef) : Prop :=
  (∃ d ∈ c.methods, ⟨c.descriptor, d.name, d.prototype⟩ = m) ∨ c.CodeNames (.method m)

theorem mem_allInstructions {i : Instruction} :
    i ∈ c.allInstructions ↔
      ∃ m ∈ c.methods, ∃ code, m.code = some code ∧ i ∈ code.instructions := by
  rw [allInstructions, List.mem_flatMap]
  constructor
  · rintro ⟨code, hcode, hi⟩
    obtain ⟨m, hm, hcode⟩ := List.mem_filterMap.1 hcode
    exact ⟨m, hm, code, hcode, hi⟩
  · rintro ⟨m, hm, code, hcode, hi⟩
    exact ⟨code, List.mem_filterMap.2 ⟨m, hm, hcode⟩, hi⟩

theorem codeNames_iff {r : Reference} :
    c.CodeNames r ↔ ∃ i ∈ c.allInstructions, i.reference = some r := by
  constructor
  · rintro ⟨m, hm, code, hcode, i, hi, hr⟩
    exact ⟨i, mem_allInstructions.2 ⟨m, hm, code, hcode, hi⟩, hr⟩
  · rintro ⟨i, hi, hr⟩
    obtain ⟨m, hm, code, hcode, hi⟩ := mem_allInstructions.1 hi
    exact ⟨m, hm, code, hcode, i, hi, hr⟩

theorem mem_fieldRefs {f : FieldRef} : f ∈ c.fieldRefs ↔ c.NamesField f := by
  rw [fieldRefs, mem_sortedDistinct, List.mem_append, List.mem_map, List.mem_filterMap,
    NamesField, codeNames_iff]
  simp only [Instruction.fieldRef?_eq_some, FieldDef.ref]

theorem mem_methodRefs {m : MethodRef} : m ∈ c.methodRefs ↔ c.NamesMethod m := by
  rw [methodRefs, mem_sortedDistinct, List.mem_append, List.mem_map, List.mem_filterMap,
    NamesMethod, codeNames_iff]
  simp only [Instruction.methodRef?_eq_some, MethodDef.ref]

theorem fieldRefs_lists (c : ClassDef) :
    Lists FieldRef.compare c.fieldRefs {f | c.NamesField f} :=
  ⟨sortedDistinct_ascending _, fun _ => mem_fieldRefs⟩

theorem methodRefs_lists (c : ClassDef) :
    Lists MethodRef.compare c.methodRefs {m | c.NamesMethod m} :=
  ⟨sortedDistinct_ascending _, fun _ => mem_methodRefs⟩

end ClassDef

section Needed

variable {α : Type} (names : ClassDef → α → Prop)

/-- What one or another of the classes names. -/
def needed (cs : List ClassDef) : Set α := {a | ∃ c ∈ cs, names c a}

theorem needed_concat (cs : List ClassDef) (c : ClassDef) :
    needed names (cs ++ [c]) = needed names cs ∪ {a | names c a} := by
  ext a
  simp [needed, or_and_right, exists_or]

theorem needed_mono {cs ds : List ClassDef} (h : cs ⊆ ds) : needed names cs ⊆ needed names ds := by
  rintro a ⟨c, hc, ha⟩
  exact ⟨c, h hc, ha⟩

end Needed

/-! ## What a pool holds -/

namespace IdPool

/-- The pool of a file with the classes. -/
structure Exact (p : IdPool) (cs : List ClassDef) : Prop where
  fields : Lists FieldRef.compare p.fields (needed ClassDef.NamesField cs)
  methods : Lists MethodRef.compare p.methods (needed ClassDef.NamesMethod cs)

namespace Exact

variable {p : IdPool} {cs : List ClassDef}

theorem empty : IdPool.empty.Exact [] where
  fields := ⟨List.Pairwise.nil, by simp [IdPool.empty, needed]⟩
  methods := ⟨List.Pairwise.nil, by simp [IdPool.empty, needed]⟩

theorem intern (h : p.Exact cs) (c : ClassDef) : (p.intern c).Exact (cs ++ [c]) := by
  constructor
  · rw [needed_concat]
    exact h.fields.merged c.fieldRefs_lists
  · rw [needed_concat]
    exact h.methods.merged c.methodRefs_lists

theorem projected_eq (h : p.Exact cs) (c : ClassDef) :
    ((p.projected c).1 : ℕ∞) = (needed ClassDef.NamesField (cs ++ [c])).encard + 10 ∧
      ((p.projected c).2 : ℕ∞) = (needed ClassDef.NamesMethod (cs ++ [c])).encard + 10 := by
  rw [needed_concat, needed_concat, h.fields.encard_union c.fieldRefs_lists,
    h.methods.encard_union c.methodRefs_lists]
  exact ⟨rfl, rfl⟩

end Exact

end IdPool

end SymbolicDex
