import SymbolicDex.Proofs.RegisterType.CategoryLattice
import Mathlib.Tactic.Linarith

/- The values a category stands for, and what a right shift by a literal makes of
   them. Shifting by a distance divides by a power of two, and a bound on the
   quotient follows from the least distance for which the category was narrowed.

   What is proved:
     1. `holds_of_narrower`: what a category holds, a wider one holds.
     2. `holds_shiftedRight_iff`: the shifted value is in the shifted category,
        but for a one that is shifted by a nonzero multiple of 32. -/
namespace SymbolicDex.Category

/-- The least and the greatest number of a category. -/
def range? : Category → Option (Int × Int)
  | null => some (0, 0)
  | one => some (1, 1)
  | boolean => some (0, 1)
  | posByte => some (0, 127)
  | byte => some (-128, 127)
  | posShort => some (0, 32767)
  | short => some (-32768, 32767)
  | char => some (0, 65535)
  | integer | float => some (-2147483648, 2147483647)
  | _ => none

/-- A word that a register of the category may have. -/
def holds (c : Category) (v : BitVec 32) : Bool :=
  c.range?.any fun (least, greatest) => least ≤ v.toInt && v.toInt ≤ greatest

/-- Shifts right by the low five bits of a literal. -/
def shiftRight (v : BitVec 32) (literal : Int) (logical : Bool) : BitVec 32 :=
  let distance := (literal % 32).toNat
  if logical then v >>> distance else v.sshiftRight distance

section

variable {c : Category} {v : BitVec 32} {least greatest : Int}

theorem holds_iff (hrange : c.range? = some (least, greatest)) :
    c.holds v = true ↔ least ≤ v.toInt ∧ v.toInt ≤ greatest := by
  simp [holds, hrange]

theorem toInt_bounds (v : BitVec 32) : -2147483648 ≤ v.toInt ∧ v.toInt ≤ 2147483647 := by
  have hlow := BitVec.le_toInt v
  have hhigh := BitVec.toInt_lt (x := v)
  omega

theorem integer_holds (v : BitVec 32) : integer.holds v = true :=
  (holds_iff rfl).2 (toInt_bounds v)

theorem holds_of_narrower {a b : Category} (hab : a.narrowerOrEqual b = true)
    (hb : b.range?.isSome = true) (ha : a.holds v = true) : b.holds v = true := by
  have hranges : ∀ a ∈ all, ∀ b ∈ all, a.narrowerOrEqual b = true →
      ∀ r ∈ a.range?, ∀ s ∈ b.range?, s.1 ≤ r.1 ∧ r.2 ≤ s.2 := by decide +kernel
  obtain ⟨⟨least, greatest⟩, hr, hbounds⟩ := (Option.any_eq_true _ _).1 ha
  obtain ⟨⟨least', greatest'⟩, hs⟩ := Option.isSome_iff_exists.1 hb
  obtain ⟨hlow, hhigh⟩ := hranges a a.mem_all b b.mem_all hab _ hr _ hs
  rw [Bool.and_eq_true, decide_eq_true_iff, decide_eq_true_iff] at hbounds
  exact (holds_iff hs).2 ⟨hlow.trans hbounds.1, hbounds.2.trans hhigh⟩

end

/-! ## A shift as a division -/

section

variable (v : BitVec 32) (literal : Int)

theorem toInt_shiftRight_arithmetic :
    (shiftRight v literal false).toInt = v.toInt / 2 ^ (literal % 32).toNat := by
  simp [shiftRight, BitVec.toInt_sshiftRight, Int.shiftRight_eq_div_pow]

theorem toInt_shiftRight_of_nonneg (hv : 0 ≤ v.toInt) (logical : Bool) :
    (shiftRight v literal logical).toInt = v.toInt / 2 ^ (literal % 32).toNat := by
  cases logical with
  | false => exact toInt_shiftRight_arithmetic v literal
  | true =>
    have hmsb : v.msb = false := by
      rw [BitVec.msb_eq_toInt]
      exact decide_eq_false (by omega)
    rw [← toInt_shiftRight_arithmetic, shiftRight, shiftRight]
    simp [BitVec.sshiftRight_eq_of_msb_false hmsb]

/-- A logical shift looks at the word as a natural number. -/
theorem toInt_shiftRight_logical (hliteral : 0 < (literal % 32).toNat) :
    (shiftRight v literal true).toInt = (v.toNat : Int) / 2 ^ (literal % 32).toNat := by
  have hdiv : (shiftRight v literal true).toNat = v.toNat / 2 ^ (literal % 32).toNat := by
    simp [shiftRight, Nat.shiftRight_eq_div_pow]
  have hhalf : v.toNat / 2 ^ (literal % 32).toNat ≤ v.toNat / 2 ^ 1 :=
    Nat.div_le_div_left (Nat.pow_le_pow_right (by decide) hliteral) (by decide)
  have hlt := v.isLt
  rw [BitVec.toInt_eq_toNat_of_lt (by omega), hdiv]
  push_cast
  rfl

end

/-- Bounds of a number give bounds of its quotients. -/
theorem ediv_pow_bounds {x b : Int} {k distance : Nat} (hk : k ≤ distance)
    (hb : 0 ≤ b) (hlow : -(b * 2 ^ k) ≤ x) (hhigh : x < b * 2 ^ k) :
    -b ≤ x / 2 ^ distance ∧ x / 2 ^ distance < b := by
  have hpow : (2 : Int) ^ k ≤ 2 ^ distance := pow_le_pow_right₀ (by decide) hk
  have hpos : (0 : Int) < 2 ^ distance := by positivity
  have hmul : b * 2 ^ k ≤ b * 2 ^ distance := mul_le_mul_of_nonneg_left hpow hb
  constructor
  · rw [Int.le_ediv_iff_mul_le hpos]
    linarith
  · exact Int.ediv_lt_of_lt_mul hpos (by linarith)

section

variable {c : Category} {v : BitVec 32} {literal b : Int} {logical : Bool} {k : Nat}

/-- A category of `b` values from zero on holds the quotients of numbers that
    are not negative. -/
theorem holds_quotient (hrange : c.range? = some (0, b - 1)) (hk : k ≤ (literal % 32).toNat)
    (hlow : 0 ≤ v.toInt) (hhigh : v.toInt < b * 2 ^ k) :
    c.holds (shiftRight v literal logical) = true := by
  have hpow : (0 : Int) < 2 ^ k := by positivity
  have hb : 0 < b := pos_of_mul_pos_left (hlow.trans_lt hhigh) hpow.le
  have hquotient := ediv_pow_bounds hk hb.le (by linarith) hhigh
  have hpos : 0 ≤ v.toInt / 2 ^ (literal % 32).toNat := Int.ediv_nonneg hlow (by positivity)
  rw [holds_iff hrange, toInt_shiftRight_of_nonneg v literal hlow]
  omega

/-- A category of `b` values on either side of zero holds the quotients of
    signed numbers. -/
theorem holds_signed_quotient (hrange : c.range? = some (-b, b - 1)) (hb : 0 ≤ b)
    (hk : k ≤ (literal % 32).toNat) (hlow : -(b * 2 ^ k) ≤ v.toInt)
    (hhigh : v.toInt < b * 2 ^ k) : c.holds (shiftRight v literal false) = true := by
  have hquotient := ediv_pow_bounds hk hb hlow hhigh
  rw [holds_iff hrange, toInt_shiftRight_arithmetic]
  omega

theorem holds_logical_quotient (hrange : c.range? = some (0, b - 1)) (hb : 0 ≤ b)
    (hpos : 0 < k) (hk : k ≤ (literal % 32).toNat) (hhigh : 4294967296 ≤ b * 2 ^ k) :
    c.holds (shiftRight v literal true) = true := by
  have hv : (v.toNat : Int) < 4294967296 := by exact_mod_cast v.isLt
  have hquotient := ediv_pow_bounds (x := v.toNat) hk hb (by omega) (by omega)
  have hnonneg : 0 ≤ (v.toNat : Int) / 2 ^ (literal % 32).toNat :=
    Int.ediv_nonneg (by omega) (by positivity)
  rw [holds_iff hrange, toInt_shiftRight_logical v literal (hpos.trans_le hk)]
  omega

/-! ## The cases of the narrowing -/

/-- A truth value that is shifted at all is taken for zero. A distance of zero
    leaves a one. -/
theorem holds_shifted_truth (hc : c = null ∨ c = one ∨ c = boolean) (hv : c.holds v = true)
    (hliteral : literal ≠ 0) :
    (c.shiftedRight literal logical).holds (shiftRight v literal logical) = true ↔
      ¬(v = 1 ∧ literal % 32 = 0) := by
  have hnull : c.shiftedRight literal logical = null := by
    rcases hc with rfl | rfl | rfl <;> simp [shiftedRight, hliteral]
  have hvalue : v.toInt = 0 ∨ v.toInt = 1 := by
    rcases hc with rfl | rfl | rfl <;> have := (holds_iff rfl).1 hv <;> omega
  rw [hnull, holds_iff rfl, toInt_shiftRight_of_nonneg v literal (by omega)]
  rcases hvalue with hvalue | hvalue
  · have hne : v ≠ 1 := by
      rintro rfl
      exact absurd hvalue (by decide)
    rw [hvalue, Int.zero_ediv]
    simp only [hne, false_and, not_false_eq_true, le_refl, and_self]
  · obtain rfl : v = 1 := BitVec.eq_of_toInt_eq hvalue
    rw [hvalue]
    by_cases hzero : literal % 32 = 0
    · simp [hzero]
    · have hdistance : 1 ≤ (literal % 32).toNat := by omega
      have hquotient := ediv_pow_bounds (x := 1) (b := 1) hdistance (by decide) (by decide)
        (by decide)
      have hnonneg : (0 : Int) ≤ 1 / 2 ^ (literal % 32).toNat :=
        Int.ediv_nonneg (by decide) (by positivity)
      simp only [hzero, and_false, not_false_eq_true, iff_true]
      omega

theorem holds_shifted_positive (hc : c = posByte ∨ c = posShort ∨ c = char)
    (hv : c.holds v = true) (hliteral : literal ≠ 0) :
    (c.shiftedRight literal logical).holds (shiftRight v literal logical) = true := by
  -- without a narrower category, a logical shift gives an integer
  have hsame : c.holds (shiftRight v literal logical) = true →
      (if logical then integer else c).holds (shiftRight v literal logical) = true := by
    intro h
    split
    · exact integer_holds _
    · exact h
  rcases hc with rfl | rfl | rfl
  · obtain ⟨hlow, hhigh⟩ := (holds_iff rfl).1 hv
    simp only [shiftedRight, hliteral, if_false, Option.getD_some]
    exact holds_quotient (b := 128) (k := 0) rfl (by omega) hlow (by omega)
  · obtain ⟨hlow, hhigh⟩ := (holds_iff rfl).1 hv
    simp only [shiftedRight, hliteral, if_false]
    split
    · rename_i hdistance
      exact holds_quotient (b := 128) rfl hdistance hlow (by omega)
    · exact hsame (holds_quotient (b := 32768) (k := 0) rfl (by omega) hlow (by omega))
  · obtain ⟨hlow, hhigh⟩ := (holds_iff rfl).1 hv
    simp only [shiftedRight, hliteral, if_false]
    split
    · rename_i hdistance
      exact holds_quotient (b := 128) rfl hdistance hlow (by omega)
    · exact hsame (holds_quotient (b := 65536) (k := 0) rfl (by omega) hlow (by omega))

theorem holds_shifted_small (hc : c = byte ∨ c = short) (hv : c.holds v = true)
    (hliteral : literal ≠ 0) :
    (c.shiftedRight literal logical).holds (shiftRight v literal logical) = true := by
  cases logical with
  | true => rcases hc with rfl | rfl <;> simp [shiftedRight, hliteral, integer_holds]
  | false =>
    rcases hc with rfl | rfl
    · obtain ⟨hlow, hhigh⟩ := (holds_iff rfl).1 hv
      simp only [shiftedRight, hliteral, if_false]
      exact holds_signed_quotient (b := 128) (k := 0) rfl (by decide) (by omega) (by omega)
        (by omega)
    · obtain ⟨hlow, hhigh⟩ := (holds_iff rfl).1 hv
      simp only [shiftedRight, hliteral, if_false, Bool.not_false, Bool.true_and,
        decide_eq_true_iff]
      split
      · rename_i hdistance
        exact holds_signed_quotient (b := 128) rfl (by decide) hdistance (by omega) (by omega)
      · exact holds_signed_quotient (b := 32768) (k := 0) rfl (by decide) (by omega)
          (by omega) (by omega)

theorem holds_shifted_word (hc : c = integer ∨ c = float) (hliteral : literal ≠ 0) :
    (c.shiftedRight literal logical).holds (shiftRight v literal logical) = true := by
  obtain ⟨hlow, hhigh⟩ := toInt_bounds v
  have hall : c.holds (shiftRight v literal false) = true := by
    rcases hc with rfl | rfl <;> exact integer_holds _
  cases logical with
  | true =>
    have hshifted : c.shiftedRight literal true =
        if 24 < (literal % 32).toNat then posByte
        else if 16 ≤ (literal % 32).toNat then char else integer := by
      rcases hc with rfl | rfl <;> simp only [shiftedRight, hliteral, if_false, if_true] <;>
        split_ifs <;> rfl
    rw [hshifted]
    split_ifs with hbyte hchar
    · exact holds_logical_quotient (b := 128) rfl (by decide) (by decide) hbyte (by decide)
    · exact holds_logical_quotient (b := 65536) rfl (by decide) (by decide) hchar (by decide)
    · exact integer_holds _
  | false =>
    have hshifted : c.shiftedRight literal false =
        if 24 ≤ (literal % 32).toNat then byte
        else if 16 ≤ (literal % 32).toNat then short else c := by
      rcases hc with rfl | rfl <;>
        simp only [shiftedRight, hliteral, if_false, Bool.false_eq_true] <;> split_ifs <;> rfl
    rw [hshifted]
    split_ifs with hbyte hshort
    · exact holds_signed_quotient (b := 128) rfl (by decide) hbyte (by omega) (by omega)
    · exact holds_signed_quotient (b := 32768) rfl (by decide) hshort (by omega) (by omega)
    · exact hall

end

/-- The type of a shifted value is right, but for a one that is shifted by a nonzero
    literal whose low five bits are zero: it stays a one and is taken for null. -/
theorem holds_shiftedRight_iff {c : Category} {v : BitVec 32} (hv : c.holds v = true)
    (literal : Int) (logical : Bool) :
    (c.shiftedRight literal logical).holds (shiftRight v literal logical) = true ↔
      ¬((c = one ∨ c = boolean) ∧ v = 1 ∧ literal ≠ 0 ∧ literal % 32 = 0) := by
  by_cases hliteral : literal = 0
  · subst hliteral
    have hsame : shiftRight v 0 logical = v := by cases logical <;> simp [shiftRight]
    simp [shiftedRight, hsame, hv]
  · cases c with
    | null =>
      rw [holds_shifted_truth (.inl rfl) hv hliteral]
      have hone : v ≠ 1 := by
        rintro rfl
        exact absurd hv (by decide)
      simp only [hone, false_and, and_false, not_false_eq_true]
    | one => simp [holds_shifted_truth (.inr (.inl rfl)) hv hliteral, hliteral]
    | boolean => simp [holds_shifted_truth (.inr (.inr rfl)) hv hliteral, hliteral]
    | posByte => simp [holds_shifted_positive (.inl rfl) hv hliteral]
    | posShort => simp [holds_shifted_positive (.inr (.inl rfl)) hv hliteral]
    | char => simp [holds_shifted_positive (.inr (.inr rfl)) hv hliteral]
    | byte => simp [holds_shifted_small (.inl rfl) hv hliteral]
    | short => simp [holds_shifted_small (.inr rfl) hv hliteral]
    | integer => simp [holds_shifted_word (.inl rfl) hliteral]
    | float => simp [holds_shifted_word (.inr rfl) hliteral]
    | _ => cases hv

/-- A byte shifted by 33 is shifted by one. -/
theorem byte_shifted_by_33 :
    (byte.shiftedRight 33 false).holds (shiftRight (-128) 33 false) = true ∧
      shiftRight (-128) 33 false = -64 :=
  ⟨(holds_shiftedRight_iff (c := byte) (v := -128) (by decide) 33 false).2 (by decide), by decide⟩

/-- Shifted by 32, a one is taken for null and stays a one. -/
theorem one_shifted_by_32 :
    one.holds 1 = true ∧ shiftRight 1 32 false = 1 ∧ one.shiftedRight 32 false = null ∧
      ¬∀ (c : Category) (v : BitVec 32) (literal : Int) (logical : Bool), c.holds v = true →
        (c.shiftedRight literal logical).holds (shiftRight v literal logical) = true := by
  refine ⟨by decide, by decide, by decide, fun h => ?_⟩
  exact absurd (h one 1 32 false (by decide)) (by decide)

end SymbolicDex.Category
