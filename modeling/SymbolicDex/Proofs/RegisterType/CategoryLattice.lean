import SymbolicDex.RegisterType.Category

/- Categories are ordered, and the join of two is their least upper bound: it is
   the upper one if they are comparable, and else it is looked for, and found. -/
namespace SymbolicDex.Category

theorem mem_all (c : Category) : c ∈ all := by
  cases c <;> decide

theorem narrower_refl (a : Category) : a.narrowerOrEqual a = true := by
  simp [narrowerOrEqual]

theorem narrower_trans {a b c : Category} (hab : a.narrowerOrEqual b = true)
    (hbc : b.narrowerOrEqual c = true) : a.narrowerOrEqual c = true := by
  have h : ∀ a ∈ all, ∀ b ∈ all, a.narrowerOrEqual b = true →
      ∀ c ∈ all, b.narrowerOrEqual c = true → a.narrowerOrEqual c = true := by decide +kernel
  exact h a a.mem_all b b.mem_all hab c c.mem_all hbc

theorem narrower_antisymm {a b : Category} (hab : a.narrowerOrEqual b = true)
    (hba : b.narrowerOrEqual a = true) : a = b := by
  have h : ∀ a ∈ all, ∀ b ∈ all, a.narrowerOrEqual b = true → b.narrowerOrEqual a = true →
      a = b := by decide +kernel
  exact h a a.mem_all b b.mem_all hab hba

/-- Categories that are not comparable meet as numbers or not at all. -/
theorem exists_least (a b : Category) : a.narrowerOrEqual b = true ∨ b.narrowerOrEqual a = true ∨
    ∃ c ∈ [boolean, short, integer, conflict], ∀ d ∈ all,
      c.narrowerOrEqual d = (a.narrowerOrEqual d && b.narrowerOrEqual d) := by
  have h : ∀ a ∈ all, ∀ b ∈ all, a.narrowerOrEqual b = true ∨ b.narrowerOrEqual a = true ∨
      ∃ c ∈ [boolean, short, integer, conflict], ∀ d ∈ all,
        c.narrowerOrEqual d = (a.narrowerOrEqual d && b.narrowerOrEqual d) := by decide +kernel
  exact h a a.mem_all b b.mem_all

/-- What is above the join is above both. -/
theorem join_narrower_iff {a b c : Category} : (a.join b).narrowerOrEqual c = true ↔
    a.narrowerOrEqual c = true ∧ b.narrowerOrEqual c = true := by
  simp only [join]
  split
  · next hab => exact ⟨fun h => ⟨narrower_trans hab h, h⟩, And.right⟩
  · next hab =>
    split
    · next hba => exact ⟨fun h => ⟨h, narrower_trans hba h⟩, And.left⟩
    · next hba =>
      obtain ⟨least, -, hleast⟩ := ((exists_least a b).resolve_left hab).resolve_left hba
      have hfound : (all.find? fun c => all.all fun d =>
          c.narrowerOrEqual d == (a.narrowerOrEqual d && b.narrowerOrEqual d)).isSome = true := by
        refine List.find?_isSome.2 ⟨least, least.mem_all, List.all_eq_true.2 fun d hd => ?_⟩
        exact beq_iff_eq.2 (hleast d hd)
      obtain ⟨j, hj⟩ := Option.isSome_iff_exists.1 hfound
      have hbounds : ∀ d ∈ all, (j.narrowerOrEqual d ==
          (a.narrowerOrEqual d && b.narrowerOrEqual d)) = true := by
        simpa using List.find?_some hj
      rw [hj, Option.getD_some, beq_iff_eq.1 (hbounds c c.mem_all), Bool.and_eq_true]

theorem narrower_join_left (a b : Category) : a.narrowerOrEqual (a.join b) = true :=
  (join_narrower_iff.1 (narrower_refl _)).1

theorem narrower_join_right (a b : Category) : b.narrowerOrEqual (a.join b) = true :=
  (join_narrower_iff.1 (narrower_refl _)).2

theorem join_comm (a b : Category) : a.join b = b.join a :=
  narrower_antisymm
    (join_narrower_iff.2 ⟨narrower_join_right b a, narrower_join_left b a⟩)
    (join_narrower_iff.2 ⟨narrower_join_right a b, narrower_join_left a b⟩)

end SymbolicDex.Category
