import Mathlib.Data.List.Perm.Subperm
import Mathlib.Logic.Relation
import SymbolicDex.Proofs.Hierarchy.SupertypeRange

/- Chains of superclasses. A chain that ends at a class without a superclass has
   every class above once, and two such chains that meet stay together from there
   up. Read from the root down they agree up to the least class they share, so
   the last agreement is that class.

   What is proved:
     1. `Complete.mem_iff`, `Complete.nodup`, `Complete.unique`: what is on a chain.
     2. `superclassChain_eq`: the chain that is collected.
     3. `lastShared_eq_some`: the last agreement of two lists.
     4. `commonAncestor_least`: it is the least common class, whatever else is on
        the path. -/
namespace SymbolicDex

namespace ClassPath

variable (p : ClassPath)

/-- `s` is the class that `d` extends. -/
def Parent (d s : Descriptor) : Prop := p.superclass d = .ok (some s)

instance (d s : Descriptor) : Decidable (p.Parent d s) :=
  inferInstanceAs (Decidable (p.superclass d = .ok (some s)))

/-- `s` is `d` or one of its superclasses. -/
def Up : Descriptor → Descriptor → Prop := Relation.ReflTransGen p.Parent

/-- `above` are the superclasses of `d`, from the one it extends to one that
    extends nothing. -/
inductive Complete : Descriptor → List Descriptor → Prop where
  | root {d : Descriptor} (h : p.superclass d = .ok none) : Complete d []
  | step {d s : Descriptor} {above : List Descriptor} (h : p.Parent d s)
      (hs : Complete s above) : Complete d (s :: above)

variable {p} {a b d s x : Descriptor} {above la lb : List Descriptor}

/-! ## What is on a chain -/

theorem Complete.unique {above' : List Descriptor} (h : p.Complete d above)
    (h' : p.Complete d above') : above = above' := by
  induction h generalizing above' with
  | root hnone =>
    cases h' with
    | root => rfl
    | step hs => simp [Parent, hnone] at hs
  | step hs _ ih =>
    cases h' with
    | root hnone => simp [Parent, hnone] at hs
    | step hs' habove' =>
      have heq := hs.symm.trans hs'
      simp only [Except.ok.injEq, Option.some.injEq] at heq
      subst heq
      rw [ih habove']

/-- Where a chain is cut, the rest is the chain of the class found there. -/
theorem Complete.suffix {rest : List Descriptor} (h : p.Complete d above)
    (hx : x :: rest <:+ d :: above) : p.Complete x rest := by
  induction h with
  | root hnone =>
    rcases List.suffix_cons_iff.1 hx with heq | hx
    · cases heq
      exact .root hnone
    · simp at hx
  | step hs habove ih =>
    rcases List.suffix_cons_iff.1 hx with heq | hx
    · cases heq
      exact .step hs habove
    · exact ih hx

theorem Complete.mem_iff (h : p.Complete d above) : x ∈ d :: above ↔ p.Up d x := by
  induction h with
  | @root d hnone =>
    rw [List.mem_singleton]
    constructor
    · rintro rfl
      exact .refl
    · intro hx
      rcases Relation.ReflTransGen.cases_head hx with rfl | ⟨s, hs, -⟩
      · rfl
      · simp [Parent, hnone] at hs
  | @step d s above hs _ ih =>
    rw [List.mem_cons, ih]
    constructor
    · rintro (rfl | hx)
      · exact .refl
      · exact .head hs hx
    · intro hx
      rcases Relation.ReflTransGen.cases_head hx with rfl | ⟨s', hs', hx⟩
      · exact .inl rfl
      · have heq := hs.symm.trans hs'
        simp only [Except.ok.injEq, Option.some.injEq] at heq
        exact .inr (heq ▸ hx)

/-- A class that came again would have a chain shorter than its own. -/
theorem Complete.nodup (h : p.Complete d above) : (d :: above).Nodup := by
  induction h with
  | root => simp
  | @step d s above hs habove ih =>
    refine List.nodup_cons.2 ⟨fun hd => ?_, ih⟩
    obtain ⟨before, rest, hrest⟩ := List.append_of_mem hd
    have hsuffix : d :: rest <:+ s :: above := ⟨before, hrest.symm⟩
    have heq := (habove.suffix hsuffix).unique (.step hs habove)
    have hle := hsuffix.length_le
    simp only [heq, List.length_cons] at hle
    omega

theorem Complete.exists_suffix (h : p.Complete d above) (hx : p.Up d x) :
    ∃ rest, x :: rest <:+ d :: above ∧ p.Complete x rest := by
  obtain ⟨before, rest, hrest⟩ := List.append_of_mem (h.mem_iff.2 hx)
  have hsuffix : x :: rest <:+ d :: above := ⟨before, hrest.symm⟩
  exact ⟨rest, hsuffix, h.suffix hsuffix⟩

theorem Complete.antisymm (h : p.Complete a la) (hab : p.Up a b) (hba : p.Up b a) : a = b := by
  obtain ⟨lb, hb, hlb⟩ := h.exists_suffix hab
  obtain ⟨la', ha, hla⟩ := hlb.exists_suffix hba
  obtain rfl : la' = la := hla.unique h
  have heq := ha.eq_of_length (Nat.le_antisymm ha.length_le hb.length_le)
  exact (List.cons.inj heq).1

theorem up_root_iff (hroot : p.superclass d = .ok none) : p.Up d x ↔ x = d := by
  rw [← (Complete.root hroot).mem_iff, List.mem_singleton]

/-- Two superclasses of a class are one above the other. -/
theorem Up.comparable (hab : p.Up a b) (had : p.Up a d) : p.Up b d ∨ p.Up d b := by
  refine Relation.ReflTransGen.total_of_right_unique (fun x y z hy hz => ?_) hab had
  have heq := hy.symm.trans hz
  simpa using heq

theorem complete_of_up {root : Descriptor} (h : p.Up d root)
    (hroot : p.superclass root = .ok none) : ∃ above, p.Complete d above := by
  induction h using Relation.ReflTransGen.head_induction_on with
  | refl => exact ⟨[], .root hroot⟩
  | head hs _ ih =>
    obtain ⟨above, habove⟩ := ih
    exact ⟨_ :: above, .step hs habove⟩

theorem Complete.named (h : p.Complete d above) : above ⊆ Descriptor.object :: p.superclasses := by
  induction h with
  | root => exact List.nil_subset _
  | step hs _ ih => exact List.cons_subset.2 ⟨p.superclass_named hs, ih⟩

theorem Complete.length_le (h : p.Complete d above) : above.length ≤ p.size + 1 := by
  have hnodup := (List.nodup_cons.1 h.nodup).2
  have hle := (hnodup.subperm h.named).length_le
  have := p.superclasses_length_le
  rw [List.length_cons] at hle
  omega

/-! ## The chain that is collected -/

theorem chainAfter_eq {self : Descriptor} {count : Nat} {seen : List Descriptor}
    (h : p.Complete d above) (hcount : above.length ≤ count) (hself : self ∉ above)
    (hseen : ∀ x ∈ seen, x ∉ above) : p.chainAfter self count seen d = above := by
  induction h generalizing count seen with
  | root hnone =>
    cases count with
    | zero => rfl
    | succ count => simp [chainAfter, hnone]
  | @step d s above hs habove ih =>
    cases count with
    | zero => simp at hcount
    | succ count =>
      have hsuper : p.superclass d = .ok (some s) := hs
      have hnew : ¬ (s = self ∨ s ∈ seen) := by
        rintro (rfl | hmem)
        · exact hself List.mem_cons_self
        · exact hseen s hmem List.mem_cons_self
      simp only [chainAfter, hsuper, hnew, if_false]
      congr 1
      refine ih (Nat.le_of_succ_le_succ hcount) (fun hmem => hself (List.mem_cons_of_mem _ hmem)) ?_
      -- what was seen is now `s` too, which its own chain does not have
      exact List.forall_mem_cons.2 ⟨(List.nodup_cons.1 habove.nodup).1,
        fun x hx hmem => hseen x hx (List.mem_cons_of_mem _ hmem)⟩

theorem superclassChain_eq (h : p.Complete d above) : p.superclassChain d = above := by
  refine chainAfter_eq h (Nat.le_succ_of_le h.length_le) (List.nodup_cons.1 h.nodup).1 ?_
  exact fun x hx => nomatch hx

/-- On a chain that breaks off or goes round there are superclasses too, up to the
    unknown class. -/
theorem up_of_mem_chainAfter {self : Descriptor} {count : Nat} {seen : List Descriptor}
    (hx : x ∈ p.chainAfter self count seen d) : x = Descriptor.unknown ∨ p.Up d x := by
  induction count generalizing seen d with
  | zero => cases hx
  | succ count ih =>
    simp only [chainAfter] at hx
    split at hx
    · exact .inl (List.mem_singleton.1 hx)
    · cases hx
    · next s hs =>
      split at hx
      · exact .inl (List.mem_singleton.1 hx)
      · rcases List.mem_cons.1 hx with rfl | hx
        · exact .inr (.single hs)
        · exact (ih hx).imp_right fun h => .head hs h

/-! ## The last agreement -/

theorem lastShared_eq_none {as bs : List Descriptor} :
    lastShared as bs = none ↔ ∀ (i : Nat) x, as[i]? = some x → bs[i]? ≠ some x := by
  induction as generalizing bs with
  | nil => simp [lastShared]
  | cons a as ih =>
    cases bs with
    | nil => simp [lastShared]
    | cons b bs =>
      have hcases : (∀ (i : Nat) x, (a :: as)[i]? = some x → (b :: bs)[i]? ≠ some x) ↔
          a ≠ b ∧ ∀ (i : Nat) x, as[i]? = some x → bs[i]? ≠ some x := by
        rw [Nat.and_forall_add_one.symm]
        simp [eq_comm]
      rw [hcases, ← ih]
      simp only [lastShared]
      cases lastShared as bs with
      | some d => simp
      | none => simp

theorem lastShared_eq_some {as bs : List Descriptor} (h : lastShared as bs = some x) :
    ∃ i : Nat, as[i]? = some x ∧ bs[i]? = some x ∧
      ∀ (j : Nat) y, as[j]? = some y → bs[j]? = some y → j ≤ i := by
  induction as generalizing bs with
  | nil => cases h
  | cons a as ih =>
    cases bs with
    | nil => cases h
    | cons b bs =>
      simp only [lastShared] at h
      cases hrest : lastShared as bs with
      | some d =>
        simp only [hrest, Option.some.injEq] at h
        subst h
        obtain ⟨i, ha, hb, hlast⟩ := ih hrest
        refine ⟨i + 1, ha, hb, fun j y hj hj' => ?_⟩
        cases j with
        | zero => exact Nat.zero_le _
        | succ j => exact Nat.succ_le_succ (hlast j y hj hj')
      | none =>
        simp only [hrest] at h
        split at h
        · next hab =>
          cases h
          refine ⟨0, rfl, by rw [hab]; rfl, fun j y hj hj' => ?_⟩
          cases j with
          | zero => exact Nat.le_refl _
          | succ j => exact absurd hj' (lastShared_eq_none.1 hrest j y hj)
        · cases h

/-- Counted from the end, a name stands where its own rest is long. -/
theorem getElem?_reverse_iff {l : List Descriptor} {i : Nat} :
    l.reverse[i]? = some x ↔ ∃ rest, x :: rest <:+ l ∧ rest.length = i := by
  constructor
  · intro h
    induction l with
    | nil => simp at h
    | cons y l ih =>
      rw [List.reverse_cons, List.getElem?_append] at h
      split at h
      · obtain ⟨rest, hrest, hlength⟩ := ih h
        exact ⟨rest, hrest.trans (List.suffix_cons y l), hlength⟩
      · next hi =>
        have hzero : i - l.reverse.length = 0 := by
          have := (List.getElem?_eq_some_iff.1 h).1
          simpa using this
        rw [hzero] at h
        cases h
        refine ⟨l, List.suffix_rfl, ?_⟩
        rw [List.length_reverse] at hi hzero
        omega
  · rintro ⟨rest, ⟨before, rfl⟩, rfl⟩
    simp

/-! ## The least common class -/

/-- If two complete chains have a class in common, what is found is on both and
    nothing they share is below it. -/
theorem commonAncestor_least (ha : p.Complete a la) (hb : p.Complete b lb) (hax : p.Up a x)
    (hbx : p.Up b x) :
    p.Up a (p.commonAncestor a b) ∧ p.Up b (p.commonAncestor a b) ∧
      p.Up (p.commonAncestor a b) x := by
  -- a class stands at the same place of both chains, that of the length of its own
  obtain ⟨rest, hx, hrest⟩ := ha.exists_suffix hax
  obtain ⟨rest', hx', hrest'⟩ := hb.exists_suffix hbx
  obtain rfl : rest = rest' := hrest.unique hrest'
  have hplace := getElem?_reverse_iff.2 ⟨rest, hx, rfl⟩
  have hplace' := getElem?_reverse_iff.2 ⟨rest, hx', rfl⟩
  simp only [commonAncestor, superclassChain_eq ha, superclassChain_eq hb]
  cases hshared : lastShared (a :: la).reverse (b :: lb).reverse with
  | none => exact absurd hplace' (lastShared_eq_none.1 hshared _ _ hplace)
  | some r =>
    rw [Option.getD_some]
    obtain ⟨i, hr, hr', hlast⟩ := lastShared_eq_some hshared
    obtain ⟨above, habove, rfl⟩ := getElem?_reverse_iff.1 hr
    refine ⟨ha.mem_iff.1 (habove.subset List.mem_cons_self), ?_, ?_⟩
    · exact hb.mem_iff.1 (List.mem_reverse.1 (List.mem_of_getElem? hr'))
    · have hle : (x :: rest).length ≤ (r :: above).length :=
        Nat.succ_le_succ (hlast _ _ hplace hplace')
      have hbelow := List.suffix_of_suffix_length_le hx habove hle
      exact (ha.suffix habove).mem_iff.1 (hbelow.subset List.mem_cons_self)

end ClassPath

end SymbolicDex
