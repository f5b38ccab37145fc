import Mathlib.Tactic.Ring
import SymbolicDex.Quickening

/- Quickening tables as bytes. Pairs are written without separators, so a table can
   be read back only because a number ends where its encoding ends, whatever
   follows.

   What is proved:
     1. `Uleb128.decode_encode`: a number in front of any bytes is read back with the
        length of its encoding, and so at any place of a buffer
        (`ByteCursor.readNumber_encode`).
     2. `QuickeningTable.readPairs_pairBytes`: hence all pairs from a place on.
     3. `QuickeningTable.unitsOfBytes_unitBytes` and its converse: two bytes an index.
     4. `QuickeningTable.bytes_round_trip`: both kinds of table. -/
namespace SymbolicDex

/-! ## Variable-length numbers -/

namespace Uleb128

theorem length_groups_pos (count n : Nat) : 0 < (groups (count + 1) n).length := by
  unfold groups
  split <;> simp

section

variable {total k n : Nat} {value : UInt32} {rest : List UInt8}

/-- A byte with the top bit clear ends the number. -/
theorem decodeFrom_last (hn : n < 128) :
    decodeFrom total k value (n.toUInt8 :: rest) =
      .ok (value + (n <<< (7 * k)).toUInt32, k + 1) := by
  have hbyte : n.toUInt8.toNat = n := by simp; omega
  have hends : n.toUInt8 < 128 := by
    rw [UInt8.lt_iff_toNat_lt, hbyte]
    exact hn
  rw [decodeFrom, hbyte, Nat.mod_eq_of_lt hn, if_pos (.inl hends)]

/-- Any other byte but the fifth asks for more. -/
theorem decodeFrom_more (hk : k < 4) :
    decodeFrom total k value ((n % 128 + 128).toUInt8 :: rest) =
      decodeFrom total (k + 1) (value + ((n % 128) <<< (7 * k)).toUInt32) rest := by
  have hbyte : (n % 128 + 128).toUInt8.toNat = n % 128 + 128 := by simp; omega
  have hgoes : ¬((n % 128 + 128).toUInt8 < 128 ∨ k = 4) := by
    rw [UInt8.lt_iff_toNat_lt, hbyte]
    simp
    omega
  rw [decodeFrom, if_neg hgoes, hbyte, Nat.add_mod_right, Nat.mod_mod]

end

theorem shift_groups (n k : Nat) :
    (n % 128) <<< (7 * k) + (n / 128) <<< (7 * (k + 1)) = n <<< (7 * k) := by
  simp only [Nat.shiftLeft_eq]
  calc
    n % 128 * 2 ^ (7 * k) + n / 128 * 2 ^ (7 * (k + 1))
      = (n % 128 + 128 * (n / 128)) * 2 ^ (7 * k) := by ring
    _ = n * 2 ^ (7 * k) := by rw [Nat.mod_add_div]

/-- From byte number `k` on, the groups of `n` add `n` shifted to that place. No
    byte that asks for more is the fifth, since `n` fits the groups that are left. -/
theorem decodeFrom_groups {total count k n : Nat} (value : UInt32) (rest : List UInt8)
    (hcount : k + (count + 1) = 5) (hn : n < 128 ^ (count + 1)) :
    decodeFrom total k value (groups (count + 1) n ++ rest) =
      .ok (value + (n <<< (7 * k)).toUInt32, k + (groups (count + 1) n).length) := by
  induction count generalizing k n value with
  | zero =>
    have hlast : n < 128 := by simpa using hn
    rw [groups, if_pos hlast]
    exact decodeFrom_last hlast
  | succ count ih =>
    rw [groups]
    split
    · rename_i hlast
      exact decodeFrom_last hlast
    · have hrest : n / 128 < 128 ^ (count + 1) := by
        rw [Nat.div_lt_iff_lt_mul (by decide)]
        rwa [Nat.pow_succ] at hn
      rw [List.cons_append, decodeFrom_more (by omega), ih _ (by omega) hrest, List.length_cons,
        UInt32.add_assoc, ← UInt32.ofNat_add, shift_groups]
      congr 2
      omega

theorem decode_encode (v : UInt32) (rest : List UInt8) :
    decode (encode v ++ rest) = .ok (v, (encode v).length) := by
  have hv : v.toNat < 128 ^ (4 + 1) := Nat.lt_trans v.toNat_lt (by decide)
  rw [decode, encode, decodeFrom_groups 0 rest rfl hv]
  simp

end Uleb128

namespace ByteCursor

/-- A number is read from the place it was written at, and the index moves behind it. -/
theorem readNumber_encode (before rest : List UInt8) (v : UInt32) :
    readNumber ⟨before ++ (Uleb128.encode v ++ rest), before.length⟩ =
      .ok (v, ⟨before ++ (Uleb128.encode v ++ rest), (before ++ Uleb128.encode v).length⟩) := by
  unfold readNumber
  rw [if_neg (by simp), List.drop_left, Uleb128.decode_encode]
  simp [Checked.within, Except.mapError, seek]

theorem toNat_unit (low high : UInt8) :
    (low.toUInt16 ||| (high.toUInt16 <<< 8)).toNat = 256 * high.toNat + low.toNat := by
  have hhigh : (high.toUInt16 <<< 8).toNat = 2 ^ 8 * high.toNat := by
    have := high.toNat_lt
    rw [UInt16.toNat_shiftLeft, UInt8.toNat_toUInt16, Nat.shiftLeft_eq]
    simp
    omega
  rw [UInt16.toNat_or, UInt8.toNat_toUInt16, hhigh, Nat.or_comm,
    ← Nat.two_pow_add_eq_or_of_lt low.toNat_lt]

theorem toNat_high (v : UInt16) : (v >>> 8).toUInt8.toNat = v.toNat / 256 := by
  have := v.toNat_lt
  rw [UInt16.toNat_toUInt8, UInt16.toNat_shiftRight, Nat.shiftRight_eq_div_pow]
  simp
  omega

/-- An index is made up of its low and its high byte, -/
theorem unit_unitBytes (v : UInt16) :
    v.toUInt8.toUInt16 ||| ((v >>> 8).toUInt8.toUInt16 <<< 8) = v := by
  apply UInt16.toNat_inj.1
  rw [toNat_unit, toNat_high, UInt16.toNat_toUInt8]
  omega

/-- and any two bytes are the bytes of the index they make up. -/
theorem unitBytes_unit (low high : UInt8) :
    unitBytes (low.toUInt16 ||| (high.toUInt16 <<< 8)) = [low, high] := by
  have hlow : (low.toUInt16 ||| (high.toUInt16 <<< 8)).toUInt8 = low := by
    apply UInt8.toNat_inj.1
    have := low.toNat_lt
    rw [UInt16.toNat_toUInt8, toNat_unit]
    omega
  have hhigh : ((low.toUInt16 ||| (high.toUInt16 <<< 8)) >>> 8).toUInt8 = high := by
    apply UInt8.toNat_inj.1
    have := low.toNat_lt
    rw [toNat_high, toNat_unit]
    omega
  rw [unitBytes, hlow, hhigh]

end ByteCursor

/-! ## Tables -/

namespace QuickeningTable

theorem pairBytes_cons (address index : UInt32) (pairs : List (UInt32 × UInt32)) :
    (ofPairs ((address, index) :: pairs)).pairBytes =
      Uleb128.encode address ++ (Uleb128.encode index ++ (ofPairs pairs).pairBytes) := by
  simp [ofPairs, pairBytes]

/-- One round reads one pair, whatever stands around it. -/
theorem readPairs_cons (count number : Nat) (before rest : List UInt8) (address index : UInt32) :
    let bytes := before ++ (Uleb128.encode address ++ (Uleb128.encode index ++ rest))
    readPairs (count + 1) number ⟨bytes, before.length⟩ =
      (readPairs count (number + 1)
        ⟨bytes, (before ++ Uleb128.encode address ++ Uleb128.encode index).length⟩).map
        (⟨some address, index⟩ :: ·) := by
  have hmore : ¬(before ++ (Uleb128.encode address ++ (Uleb128.encode index ++ rest))).length ≤
      before.length := by
    have haddress : 0 < (Uleb128.encode address).length := Uleb128.length_groups_pos 4 _
    rw [List.length_append, List.length_append]
    omega
  have hindex := ByteCursor.readNumber_encode (before ++ Uleb128.encode address) rest index
  rw [List.append_assoc before] at hindex
  dsimp only
  rw [readPairs, if_neg hmore]
  simp only [ByteCursor.readNumber_encode, Checked.within, Except.mapError, bind, Except.bind]
  rw [hindex]
  dsimp only
  cases readPairs count (number + 1) _ <;> rfl

/-- Pairs are read up to the end of the buffer, if there is a round for each. -/
theorem readPairs_pairBytes {count : Nat} (number : Nat) (before : List UInt8)
    {pairs : List (UInt32 × UInt32)} (hcount : pairs.length ≤ count) :
    readPairs count number ⟨before ++ (ofPairs pairs).pairBytes, before.length⟩ =
      .ok (ofPairs pairs).entries := by
  induction pairs generalizing count number before with
  | nil =>
    cases count with
    | zero => rfl
    | succ count => simp [readPairs, ofPairs, pairBytes]
  | cons p pairs ih =>
    obtain ⟨address, index⟩ := p
    cases count with
    | zero => cases hcount
    | succ count =>
      have hrest := ih (number + 1) (before ++ Uleb128.encode address ++ Uleb128.encode index)
        (Nat.le_of_succ_le_succ hcount)
      rw [List.append_assoc, List.append_assoc] at hrest
      rw [pairBytes_cons, readPairs_cons, hrest]
      rfl

theorem length_le_pairBytes (pairs : List (UInt32 × UInt32)) :
    pairs.length ≤ (ofPairs pairs).pairBytes.length := by
  induction pairs with
  | nil => exact Nat.zero_le _
  | cons p pairs ih =>
    obtain ⟨address, index⟩ := p
    have haddress : 0 < (Uleb128.encode address).length := Uleb128.length_groups_pos 4 _
    rw [pairBytes_cons, List.length_append, List.length_append, List.length_cons]
    omega

theorem parsePairs_pairBytes (pairs : List (UInt32 × UInt32)) :
    parsePairs (ofPairs pairs).pairBytes = .ok (ofPairs pairs) := by
  have hread := readPairs_pairBytes 0 [] (length_le_pairBytes pairs)
  rw [List.nil_append, List.length_nil] at hread
  rw [parsePairs, hread]
  rfl

theorem unitsOfBytes_unitBytes (indices : List UInt16) :
    unitsOfBytes (indices.flatMap ByteCursor.unitBytes) = indices := by
  induction indices with
  | nil => rfl
  | cons v indices ih =>
    rw [List.flatMap_cons, ByteCursor.unitBytes, List.cons_append, List.cons_append,
      List.nil_append, unitsOfBytes, ByteCursor.unit_unitBytes, ih]

/-- Pairs of bytes are indices, and nothing is lost if no byte is left over. -/
theorem flatMap_unitsOfBytes {bytes : List UInt8} (heven : bytes.length % 2 = 0) :
    (unitsOfBytes bytes).flatMap ByteCursor.unitBytes = bytes := by
  fun_induction unitsOfBytes bytes with
  | case1 low high rest ih =>
    have hrest : rest.length % 2 = 0 := by
      rw [List.length_cons, List.length_cons] at heven
      omega
    rw [List.flatMap_cons, ByteCursor.unitBytes_unit, ih hrest]
    rfl
  | case2 bytes hshort =>
    match bytes, hshort with
    | [], _ => rfl
    | [_], _ => simp at heven
    | low :: high :: rest, hshort => exact absurd rfl (hshort low high rest)

/-- Indices of 16 bits are never too wide. -/
theorem indexBytes_ofIndices (indices : List UInt16) :
    (ofIndices indices).indexBytes = .ok (indices.flatMap ByteCursor.unitBytes) := by
  unfold indexBytes ofIndices
  dsimp only
  induction indices with
  | nil => rfl
  | cons v indices ih =>
    have hfits : v.toUInt32 < 0x10000 := by
      rw [UInt32.lt_iff_toNat_lt, UInt16.toNat_toUInt32]
      exact v.toNat_lt
    rw [List.map_cons, entryIndexBytes, if_pos hfits, ih, UInt16.toUInt16_toUInt32]
    rfl

theorem length_flatMap_unitBytes (indices : List UInt16) :
    (indices.flatMap ByteCursor.unitBytes).length = 2 * indices.length := by
  induction indices with
  | nil => rfl
  | cons v indices ih =>
    rw [List.flatMap_cons, List.length_append, ih, List.length_cons]
    simp [ByteCursor.unitBytes]
    omega

theorem parseIndices_unitBytes (indices : List UInt16) :
    parseIndices (indices.flatMap ByteCursor.unitBytes) = .ok (ofIndices indices) := by
  rw [parseIndices, if_neg (by rw [length_flatMap_unitBytes]; omega), unitsOfBytes_unitBytes]

/-- A table of pairs, and one of indices, is read back from its bytes; and exactly
    the byte strings of even length are the bytes of the table of indices that is
    read from them. -/
theorem bytes_round_trip :
    (∀ pairs, parsePairs (ofPairs pairs).pairBytes = .ok (ofPairs pairs)) ∧
    (∀ indices, ∃ bytes, (ofIndices indices).indexBytes = .ok bytes ∧
      parseIndices bytes = .ok (ofIndices indices)) ∧
    ∀ bytes, (∃ t, parseIndices bytes = .ok t ∧ t.indexBytes = .ok bytes) ↔
      bytes.length % 2 = 0 := by
  refine ⟨parsePairs_pairBytes, fun indices => ⟨_, indexBytes_ofIndices indices,
    parseIndices_unitBytes indices⟩, fun bytes => ⟨?_, fun heven => ?_⟩⟩
  · rintro ⟨t, hparse, -⟩
    unfold parseIndices at hparse
    split at hparse
    · cases hparse
    · omega
  · refine ⟨ofIndices (unitsOfBytes bytes), by rw [parseIndices, if_neg (by omega)], ?_⟩
    rw [indexBytes_ofIndices, flatMap_unitsOfBytes heven]

end QuickeningTable

end SymbolicDex
