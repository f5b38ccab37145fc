import Mathlib.Logic.Relation
import SymbolicDex.Proofs.RegisterType.LiteralShift
import SymbolicDex.RegisterType.Basic

/- Constants that meet in one register. A constant is given its category by its value
   alone, and the join knows of the order of categories but not of values. The two fit
   because a category of integers is at or above that of a constant exactly if it
   holds the constant; a join, being a least upper bound, is then at or below exactly
   the categories of integers that hold all constants.

   What is proved:
     1. `narrower_iff_steps`: the order is made of fifteen immediate steps.
     2. `ofLiteral_narrower_iff`: order and values agree on one constant.
     3. `joinAll_narrower_iff`, `joinAll_mem_integral`: the join of a list.
     4. `constants_join_least`: constants join to the narrowest category that fits. -/
namespace SymbolicDex.Category

/-! ## Immediate steps -/

/-- The categories directly above one, with unknown below all and conflict above all
    left out. -/
def steps : List (Category × Category) := [
  (null, boolean), (one, boolean), (null, reference), (boolean, posByte), (boolean, float),
  (posByte, byte), (posByte, posShort), (byte, short), (posShort, short), (posShort, char),
  (short, integer), (char, integer), (float, integer), (doubleLo, longLo), (doubleHi, longHi)]

/-- A category that is below another one, and not because it is unknown or the other
    conflict, has a step towards it. -/
theorem exists_step {a b : Category} (hab : a.narrowerOrEqual b = true) :
    a = unknown ∨ b = conflict ∨ a = b ∨
      ∃ c, (a, c) ∈ steps ∧ c.narrowerOrEqual b = true ∧ c.wider.length < a.wider.length := by
  have h : ∀ a ∈ all, ∀ b ∈ all, a.narrowerOrEqual b = true → a = unknown ∨ b = conflict ∨
      a = b ∨ ∃ c ∈ all, (a, c) ∈ steps ∧ c.narrowerOrEqual b = true ∧
        c.wider.length < a.wider.length := by decide +kernel
  obtain ha | hb | heq | ⟨c, -, hc⟩ := h a a.mem_all b b.mem_all hab
  · exact .inl ha
  · exact .inr (.inl hb)
  · exact .inr (.inr (.inl heq))
  · exact .inr (.inr (.inr ⟨c, hc⟩))

theorem step_narrower {a b : Category} (h : (a, b) ∈ steps) : a.narrowerOrEqual b = true := by
  have hall : ∀ step ∈ steps, step.1.narrowerOrEqual step.2 = true := by decide
  exact hall (a, b) h

theorem narrower_iff_steps {a b : Category} : a.narrowerOrEqual b = true ↔
    a = unknown ∨ b = conflict ∨ Relation.ReflTransGen (fun c d => (c, d) ∈ steps) a b := by
  constructor
  · intro hab
    -- a step leaves fewer categories above
    induction hn : a.wider.length using Nat.strong_induction_on generalizing a with
    | _ n ih =>
      obtain ha | hb | heq | ⟨c, hstep, hcb, hless⟩ := exists_step hab
      · exact .inl ha
      · exact .inr (.inl hb)
      · exact .inr (.inr (heq ▸ .refl))
      · obtain rfl | hb | hpath := ih _ (hn ▸ hless) hcb rfl
        · exact .inl (narrower_antisymm (step_narrower hstep) (by simp [narrowerOrEqual]))
        · exact .inr (.inl hb)
        · exact .inr (.inr (.head hstep hpath))
  · intro h
    obtain rfl | rfl | hpath := h
    · simp [narrowerOrEqual]
    · simp [narrowerOrEqual]
    · induction hpath with
      | refl => exact narrower_refl a
      | tail _ hstep ih => exact narrower_trans ih (step_narrower hstep)

/-! ## One constant -/

/-- The categories of integers in one register. -/
def integral : List Category :=
  [null, one, boolean, posByte, byte, posShort, short, char, integer]

theorem range?_of_mem_integral {c : Category} (hc : c ∈ integral) : c.range?.isSome = true := by
  have h : ∀ c ∈ integral, c.range?.isSome = true := by decide
  exact h c hc

/-- The 32-bit numbers cut wherever a category begins or ends: the category of the
    constants of a piece, its least and its greatest number. -/
def pieces : List (Category × Int × Int) := [
  (integer, -2147483648, -32769), (short, -32768, -129), (byte, -128, -1), (null, 0, 0),
  (one, 1, 1), (posByte, 2, 127), (posShort, 128, 32767), (char, 32768, 65535),
  (integer, 65536, 2147483647)]

theorem ofLiteral_piece (v : BitVec 32) : ∃ least greatest : Int,
    (ofLiteral v.toInt, least, greatest) ∈ pieces ∧ least ≤ v.toInt ∧ v.toInt ≤ greatest := by
  obtain ⟨hlow, hhigh⟩ := toInt_bounds v
  unfold ofLiteral
  split
  · exact ⟨-2147483648, -32769, by decide, by omega, by omega⟩
  split
  · exact ⟨-32768, -129, by decide, by omega, by omega⟩
  split
  · exact ⟨-128, -1, by decide, by omega, by omega⟩
  split
  · exact ⟨0, 0, by decide, by omega, by omega⟩
  split
  · exact ⟨1, 1, by decide, by omega, by omega⟩
  split
  · exact ⟨2, 127, by decide, by omega, by omega⟩
  split
  · exact ⟨128, 32767, by decide, by omega, by omega⟩
  split
  · exact ⟨32768, 65535, by decide, by omega, by omega⟩
  · exact ⟨65536, 2147483647, by decide, by omega, by omega⟩

theorem ofLiteral_mem_integral (v : BitVec 32) : ofLiteral v.toInt ∈ integral := by
  have hpieces : ∀ piece ∈ pieces, piece.1 ∈ integral := by decide
  obtain ⟨_, _, hpiece, -⟩ := ofLiteral_piece v
  exact hpieces _ hpiece

/-- The category of a constant holds it. -/
theorem holds_ofLiteral (v : BitVec 32) : (ofLiteral v.toInt).holds v = true := by
  have hpieces : ∀ piece ∈ pieces, ∀ r ∈ piece.1.range?, r.1 ≤ piece.2.1 ∧ piece.2.2 ≤ r.2 := by
    decide
  obtain ⟨low, high, hpiece, hlow, hhigh⟩ := ofLiteral_piece v
  obtain ⟨⟨least, greatest⟩, hrange⟩ :=
    Option.isSome_iff_exists.1 (range?_of_mem_integral (ofLiteral_mem_integral v))
  have hbounds : least ≤ low ∧ high ≤ greatest := hpieces _ hpiece _ hrange
  rw [holds_iff hrange]
  omega

/-- A category of integers that holds a constant is at or above that of the constant:
    any other one holds nothing of the whole piece. -/
theorem ofLiteral_narrower {c : Category} {v : BitVec 32} (hc : c ∈ integral)
    (hv : c.holds v = true) : (ofLiteral v.toInt).narrowerOrEqual c = true := by
  have hpieces : ∀ piece ∈ pieces, ∀ c ∈ integral, piece.1.narrowerOrEqual c = true ∨
      ∀ r ∈ c.range?, piece.2.2 < r.1 ∨ r.2 < piece.2.1 := by decide +kernel
  obtain ⟨low, high, hpiece, hlow, hhigh⟩ := ofLiteral_piece v
  obtain ⟨⟨least, greatest⟩, hrange⟩ := Option.isSome_iff_exists.1 (range?_of_mem_integral hc)
  rw [holds_iff hrange] at hv
  refine (hpieces _ hpiece c hc).resolve_right ?_
  intro hoff
  have hapart : high < least ∨ greatest < low := hoff _ hrange
  omega

theorem ofLiteral_narrower_iff {c : Category} (hc : c ∈ integral) (v : BitVec 32) :
    (ofLiteral v.toInt).narrowerOrEqual c = true ↔ c.holds v = true := by
  constructor
  · intro h
    exact holds_of_narrower h (range?_of_mem_integral hc) (holds_ofLiteral v)
  · exact ofLiteral_narrower hc

/-! ## A list of categories -/

/-- The join of a category with those of a list, from left to right. -/
def joinAll (c : Category) (cs : List Category) : Category := cs.foldl join c

theorem joinAll_narrower_iff {c d : Category} {cs : List Category} :
    (c.joinAll cs).narrowerOrEqual d = true ↔ ∀ b ∈ c :: cs, b.narrowerOrEqual d = true := by
  induction cs generalizing c with
  | nil => simp [joinAll]
  | cons b cs ih =>
    show ((c.join b).joinAll cs).narrowerOrEqual d = true ↔ _
    rw [ih]
    simp only [List.forall_mem_cons, join_narrower_iff, and_assoc]

theorem join_mem_integral {a b : Category} (ha : a ∈ integral) (hb : b ∈ integral) :
    a.join b ∈ integral := by
  have h : ∀ a ∈ integral, ∀ b ∈ integral, a.join b ∈ integral := by decide +kernel
  exact h a ha b hb

theorem joinAll_mem_integral {c : Category} {cs : List Category}
    (h : ∀ b ∈ c :: cs, b ∈ integral) : c.joinAll cs ∈ integral := by
  induction cs generalizing c with
  | nil => exact h c List.mem_cons_self
  | cons b cs ih =>
    simp only [List.forall_mem_cons] at h
    obtain ⟨hc, hb, hcs⟩ := h
    apply ih
    rw [List.forall_mem_cons]
    exact ⟨join_mem_integral hc hb, hcs⟩

/-! ## Constants -/

/-- The category that a constant alone gives its register. -/
def ofConstant (v : BitVec 32) : Category := (RegisterType.ofLiteral v.toInt).category

/-- The category of a register in which several constants meet. -/
def ofConstants (v : BitVec 32) (vs : List (BitVec 32)) : Category :=
  (ofConstant v).joinAll (vs.map ofConstant)

/-- Below a category of integers are the constants that it holds, one or many. -/
theorem ofConstants_narrower_iff {d : Category} (hd : d ∈ integral) (v : BitVec 32)
    (vs : List (BitVec 32)) :
    (ofConstants v vs).narrowerOrEqual d = true ↔ ∀ w ∈ v :: vs, d.holds w = true := by
  have hone (w : BitVec 32) : (ofConstant w).narrowerOrEqual d = true ↔ d.holds w = true :=
    ofLiteral_narrower_iff hd w
  rw [ofConstants, joinAll_narrower_iff, ← List.map_cons, List.forall_mem_map]
  simp only [hone]

/-- The join of constants is a category of integers that holds them all, and it is at
    or below every other one that does. -/
theorem constants_join_least (v : BitVec 32) (vs : List (BitVec 32)) :
    (ofConstants v vs ∈ integral ∧ ∀ w ∈ v :: vs, (ofConstants v vs).holds w = true) ∧
      ∀ d ∈ integral, (∀ w ∈ v :: vs, d.holds w = true) →
        (ofConstants v vs).narrowerOrEqual d = true := by
  have hmem : ofConstants v vs ∈ integral := by
    apply joinAll_mem_integral
    rw [← List.map_cons, List.forall_mem_map]
    intro w _
    exact ofLiteral_mem_integral w
  refine ⟨⟨hmem, ?_⟩, ?_⟩
  · exact (ofConstants_narrower_iff hmem v vs).1 (narrower_refl _)
  · intro d hd hholds
    exact (ofConstants_narrower_iff hd v vs).2 hholds

/-- A byte beside a number past the signed halfwords, and one: none is negative, so
    they meet below the integers. -/
theorem constants_join_char :
    (char ∈ integral ∧ ∀ w ∈ [(127 : BitVec 32), 40000, 1], char.holds w = true) ∧
      ofConstants 127 [40000, 1] = char ∧
      integer ∈ integral ∧ (∀ w ∈ [(127 : BitVec 32), 40000, 1], integer.holds w = true) ∧
      (ofConstants 127 [40000, 1]).narrowerOrEqual integer = true := by
  have hchar : ofConstants 127 [40000, 1] = char := by decide
  obtain ⟨hfits, hleast⟩ := constants_join_least 127 [40000, 1]
  rw [hchar] at hfits
  have hinteger : ∀ w ∈ [(127 : BitVec 32), 40000, 1], integer.holds w = true :=
    fun w _ => integer_holds w
  exact ⟨hfits, hchar, by decide, hinteger, hleast integer (by decide) hinteger⟩

end SymbolicDex.Category
