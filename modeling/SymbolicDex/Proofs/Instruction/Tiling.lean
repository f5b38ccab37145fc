import Mathlib.Algebra.GroupWithZero.Nat
import Mathlib.Control.Monad.Basic
import SymbolicDex.ClassDef
import SymbolicDex.Instruction.Reader
import SymbolicDex.Proofs.Instruction.Reading

/- A decoded stream is laid out in instructions without a gap. `Tiles` says so of a
   stream and a list of instructions, without the fuel and the addresses of the
   definitions that run; a stream has at most one such list, and decoding finds it.

   What is proved:
     1. `decode_eq_ok_iff`: decoding succeeds exactly on the streams that are tiled.
     2. `Tiles.append`, `Tiles.of_append`: tilings are put together and taken apart
        where two streams meet.
     3. `Reader.next_spec`: one step of a reader gives away the first item that is
        pending; `Reader.next_after`: what it gives in a whole run.
     4. `decode_tiles_stream`: sizes, addresses, composition and reading in bounds. -/
namespace SymbolicDex

namespace Instruction

variable {t : OpcodeTable} {r : Resolver} {us vs : List UInt16} {is js ks : List Instruction}

/-! ## Tilings -/

/-- The instructions stand in the stream one after the other, and fill it. -/
inductive Tiles (t : OpcodeTable) (r : Resolver) : List UInt16 → List Instruction → Prop where
  | nil : Tiles t r [] []
  | cons {us : List UInt16} {i : Instruction} {is : List Instruction} (hus : us ≠ [])
      (hhead : decodeHead t r us = .ok i) (htail : Tiles t r (us.drop i.codeUnits) is) :
      Tiles t r us (i :: is)

theorem Tiles.sum_codeUnits (h : Tiles t r us is) : (is.map codeUnits).sum = us.length := by
  induction h with
  | nil => rfl
  | @cons us i is _ hhead _ ih =>
    have hfits := codeUnits_le_of_decodeHead hhead
    rw [List.map_cons, List.sum_cons, ih, List.length_drop]
    omega

theorem Tiles.exists_cons (h : Tiles t r us ks) (hus : us ≠ []) :
    ∃ i is, ks = i :: is ∧ decodeHead t r us = .ok i ∧ Tiles t r (us.drop i.codeUnits) is := by
  cases h with
  | nil => exact absurd rfl hus
  | cons _ hhead htail => exact ⟨_, _, rfl, hhead, htail⟩

theorem Tiles.append (hus : Tiles t r us is) (hvs : Tiles t r vs js) :
    Tiles t r (us ++ vs) (is ++ js) := by
  induction hus with
  | nil => exact hvs
  | @cons us i is hne hhead _ ih =>
    refine .cons (by simp [hne]) (decodeHead_append vs hne hhead) ?_
    rw [List.drop_append_of_le_length (codeUnits_le_of_decodeHead hhead)]
    exact ih

/-- A tiling of two streams is one of the second after one of the first. -/
theorem Tiles.of_append (hus : Tiles t r us is) (h : Tiles t r (us ++ vs) ks) :
    ∃ js, ks = is ++ js ∧ Tiles t r vs js := by
  induction hus generalizing ks with
  | nil => exact ⟨ks, rfl, h⟩
  | @cons us i is hne hhead _ ih =>
    obtain ⟨i', ks, rfl, hhead', htail⟩ := h.exists_cons (by simp [hne])
    -- what follows the first stream does not change the instruction at its head
    cases (decodeHead_append vs hne hhead).symm.trans hhead'
    rw [List.drop_append_of_le_length (codeUnits_le_of_decodeHead hhead)] at htail
    obtain ⟨js, rfl, hjs⟩ := ih htail
    exact ⟨js, rfl, hjs⟩

/-! ## Items of a tiled stream -/

theorem itemsFrom_nil (count address : Nat) : itemsFrom t r count address [] = [] := by
  cases count <;> rfl

theorem itemsFrom_cons {count address : Nat} {i : Instruction} (hus : us ≠ [])
    (hhead : decodeHead t r us = .ok i) :
    itemsFrom t r (count + 1) address us =
      .ok (address, i) :: itemsFrom t r count (address + i.codeUnits) (us.drop i.codeUnits) := by
  obtain ⟨u, us, rfl⟩ := List.exists_cons_of_ne_nil hus
  have hitem : itemAt t r address (u :: us) = .ok (address, i) := by
    simp only [itemAt, hhead]
    rfl
  simp only [itemsFrom, hitem]

theorem itemsFrom_error {count address : Nat} {e : Failure} (hus : us ≠ [])
    (hitem : itemAt t r address us = .error e) :
    itemsFrom t r (count + 1) address us = [.error e] := by
  obtain ⟨u, us, rfl⟩ := List.exists_cons_of_ne_nil hus
  simp only [itemsFrom, hitem]

theorem itemAt_eq_ok {address : Nat} {item : Nat × Instruction}
    (h : itemAt t r address us = .ok item) :
    ∃ i, item = (address, i) ∧ decodeHead t r us = .ok i := by
  simp only [itemAt] at h
  cases hhead : decodeHead t r us with
  | error e => simp [hhead, Checked.within, Except.mapError, Except.map] at h
  | ok i =>
    rw [hhead] at h
    cases h
    exact ⟨i, rfl, rfl⟩

theorem length_drop_codeUnits (i : Instruction) {count : Nat} (h : us.length ≤ count + 1) :
    (us.drop i.codeUnits).length ≤ count := by
  have hpos := i.codeUnits_pos
  rw [List.length_drop]
  omega

/-- A bound on the number of items that the length allows changes nothing. -/
theorem itemsFrom_congr {count count' address : Nat} (h : us.length ≤ count)
    (h' : us.length ≤ count') :
    itemsFrom t r count address us = itemsFrom t r count' address us := by
  induction count generalizing count' address us with
  | zero =>
    cases List.eq_nil_of_length_eq_zero (Nat.le_zero.1 h)
    rw [itemsFrom_nil, itemsFrom_nil]
  | succ count ih =>
    by_cases hus : us = []
    · rw [hus, itemsFrom_nil, itemsFrom_nil]
    obtain ⟨count', rfl⟩ :=
      Nat.exists_eq_add_one.2 (Nat.lt_of_lt_of_le (List.length_pos_iff.2 hus) h')
    cases hitem : itemAt t r address us with
    | error e => rw [itemsFrom_error hus hitem, itemsFrom_error hus hitem]
    | ok item =>
      obtain ⟨i, -, hhead⟩ := itemAt_eq_ok hitem
      rw [itemsFrom_cons hus hhead, itemsFrom_cons hus hhead,
        ih (length_drop_codeUnits i h) (length_drop_codeUnits i h')]

theorem Tiles.itemsFrom_eq (h : Tiles t r us is) {count address : Nat}
    (hcount : us.length ≤ count) :
    itemsFrom t r count address us = ((addressesFrom address is).zip is).map .ok := by
  induction h generalizing count address with
  | nil => exact itemsFrom_nil count address
  | @cons us i is hus hhead _ ih =>
    obtain ⟨count, rfl⟩ :=
      Nat.exists_eq_add_one.2 (Nat.lt_of_lt_of_le (List.length_pos_iff.2 hus) hcount)
    rw [itemsFrom_cons hus hhead, ih (length_drop_codeUnits i hcount)]
    rfl

theorem tiles_of_itemsFrom {count address : Nat} (hcount : us.length ≤ count)
    (h : (itemsFrom t r count address us).mapM (fun item => item.map (·.2)) = .ok is) :
    Tiles t r us is := by
  induction count generalizing address us is with
  | zero =>
    cases List.eq_nil_of_length_eq_zero (Nat.le_zero.1 hcount)
    cases h
    exact .nil
  | succ count ih =>
    by_cases hus : us = []
    · rw [hus, itemsFrom_nil] at h
      cases h
      exact hus ▸ .nil
    cases hitem : itemAt t r address us with
    | error e =>
      rw [itemsFrom_error hus hitem] at h
      cases h
    | ok item =>
      obtain ⟨i, -, hhead⟩ := itemAt_eq_ok hitem
      rw [itemsFrom_cons hus hhead, List.mapM_cons] at h
      cases hrest : (itemsFrom t r count (address + i.codeUnits) (us.drop i.codeUnits)).mapM
          (fun item : Item => item.map (·.2)) with
      | error e =>
        rw [hrest] at h
        cases h
      | ok is =>
        rw [hrest] at h
        cases h
        exact .cons hus hhead (ih (length_drop_codeUnits i hcount) hrest)

/-! ## Addresses -/

theorem addressesFrom_eq_map_range (start : Nat) (is : List Instruction) :
    addressesFrom start is =
      (List.range is.length).map fun k => start + ((is.take k).map codeUnits).sum := by
  induction is generalizing start with
  | nil => rfl
  | cons i is ih =>
    rw [List.length_cons, List.range_succ_eq_map, List.map_cons, List.map_map, addressesFrom, ih]
    simp [Function.comp_def, Nat.add_assoc]

theorem lt_of_mem_addressesFrom {start a : Nat} (h : a ∈ addressesFrom start is) :
    a < start + (is.map codeUnits).sum := by
  induction is generalizing start with
  | nil => cases h
  | cons i is ih =>
    have hpos := i.codeUnits_pos
    rw [List.map_cons, List.sum_cons]
    rcases List.mem_cons.1 h with rfl | h
    · omega
    · have hrest := ih h
      omega

/-- Decoding finds the instructions that fill the stream, if there are such. -/
theorem decode_eq_ok_iff : decode t r us = .ok is ↔ Tiles t r us is := by
  constructor
  · exact tiles_of_itemsFrom (Nat.le_refl _)
  · intro h
    have hlength : (addressesFrom 0 is).length = is.length := by
      rw [addressesFrom_eq_map_range, List.length_map, List.length_range]
    have hpure : (((addressesFrom 0 is).zip is).map Except.ok).mapM
        (fun item : Item => item.map (·.2)) = .ok (((addressesFrom 0 is).zip is).map (·.2)) := by
      rw [List.mapM_map]
      exact List.mapM_pure
    rw [decode, items, h.itemsFrom_eq (Nat.le_refl _), hpure, List.map_snd_zip (by omega)]

theorem decode_append_ok (hus : decode t r us = .ok is) (hvs : decode t r vs = .ok js) :
    decode t r (us ++ vs) = .ok (is ++ js) :=
  decode_eq_ok_iff.2 ((decode_eq_ok_iff.1 hus).append (decode_eq_ok_iff.1 hvs))

theorem decode_append_error {e : Failure} (hus : decode t r us = .ok is)
    (hvs : decode t r vs = .error e) : ∃ e', decode t r (us ++ vs) = .error e' := by
  cases h : decode t r (us ++ vs) with
  | error e' => exact ⟨e', rfl⟩
  | ok ks =>
    obtain ⟨js, -, hjs⟩ := (decode_eq_ok_iff.1 hus).of_append (decode_eq_ok_iff.1 h)
    rw [decode_eq_ok_iff.2 hjs] at hvs
    cases hvs

end Instruction

/-! ## Readers -/

namespace Reader

open Instruction

/-- The items a reader has yet to give. -/
def pending (r : Reader) : List Item :=
  r.ahead.toList ++ itemsFrom r.table r.resolver r.units.length r.address r.units

/-- The reader after `k` items were taken. -/
def after (r : Reader) : Nat → Reader
  | 0 => r
  | k + 1 => (r.after k).next.2

theorem advance_spec (r : Reader) (h : r.ahead = none) :
    r.advance.1 = r.pending.head? ∧ r.advance.2.pending = r.pending.tail := by
  obtain ⟨t, resolver, address, us, ahead⟩ := r
  cases h
  cases us with
  | nil => exact ⟨rfl, rfl⟩
  | cons u us =>
    cases hitem : itemAt t resolver address (u :: us) with
    | error e => simp [advance, pending, hitem, itemsFrom]
    | ok item =>
      obtain ⟨i, rfl, hhead⟩ := itemAt_eq_ok hitem
      simp only [advance, pending, hitem, List.length_cons,
        itemsFrom_cons (List.cons_ne_nil u us) hhead]
      refine ⟨rfl, ?_⟩
      exact itemsFrom_congr (Nat.le_refl _) (length_drop_codeUnits i (Nat.le_refl _))

theorem next_spec (r : Reader) :
    r.next.1 = r.pending.head? ∧ r.next.2.pending = r.pending.tail := by
  cases h : r.ahead with
  | none =>
    have hnext : r.next = r.advance := by simp only [next, h]
    rw [hnext]
    exact r.advance_spec h
  | some item =>
    simp only [next, pending, h]
    exact ⟨rfl, rfl⟩

theorem pending_after (r : Reader) (k : Nat) : (r.after k).pending = r.pending.drop k := by
  induction k with
  | zero => rfl
  | succ k ih => rw [after, (next_spec _).2, ih, List.tail_drop]

/-- A run of a reader gives what was pending at its start, one item at a time. -/
theorem next_after (r : Reader) (k : Nat) : (r.after k).next.1 = r.pending[k]? := by
  rw [(next_spec _).1, pending_after, List.head?_drop]

end Reader

namespace Instruction

open CodeUnits

/-- A stream that decodes is filled by its instructions: their sizes add up to its
    length, and a reader gives each of them at the address that the instructions
    before it add up to, as the body that holds them says. What is decoded after
    them is decoded on its own. On every stream, decoding at any position reads
    inside the stream. -/
theorem decode_tiles_stream (t : OpcodeTable) (r : Resolver) (us : List UInt16) :
    (∀ is, decode t r us = .ok is →
      (is.map codeUnits).sum = us.length ∧
        (∀ code : Code, code.instructions = is →
          code.addresses =
              (List.range is.length).map (fun k => ((is.take k).map codeUnits).sum) ∧
            (∀ a ∈ code.addresses, a < us.length) ∧
            ∀ k, ((Reader.ofUnits t r us).after k).next.1 =
              (code.addresses.zip is)[k]?.map .ok) ∧
        ∀ vs, (∀ js, decode t r vs = .ok js → decode t r (us ++ vs) = .ok (is ++ js)) ∧
          ∀ e, decode t r vs = .error e → ∃ e', decode t r (us ++ vs) = .error e') ∧
      ∀ k < us.length,
        decodeFirst r (Source.guarded (us.drop k)) t =
          Source.settled (decodeHead t r (us.drop k)) := by
  constructor
  · intro is h
    have htiles := decode_eq_ok_iff.1 h
    refine ⟨htiles.sum_codeUnits, ?_, ?_⟩
    · rintro code rfl
      refine ⟨?_, ?_, ?_⟩
      · rw [Code.addresses, addressesFrom_eq_map_range]
        simp only [Nat.zero_add]
      · intro a ha
        rw [← htiles.sum_codeUnits]
        simpa using lt_of_mem_addressesFrom ha
      · intro k
        have hpending : (Reader.ofUnits t r us).pending = items t r us := rfl
        rw [Reader.next_after, hpending, items, htiles.itemsFrom_eq (Nat.le_refl _),
          List.getElem?_map]
        rfl
    · intro vs
      exact ⟨fun js hjs => decode_append_ok h hjs, fun e he => decode_append_error h he⟩
  · intro k hk
    apply Source.decodeFirst_guarded
    rw [List.length_drop]
    omega

/-- A jump table of one target after a small constant, then a return or half of a
    two-unit instruction. -/
theorem decode_tiles_stream_table :
    let t := OpcodeTable.ofApi 28
    let us : List UInt16 := [0x1012, 0x0100, 1, 7, 0, 5, 0]
    let is : List Instruction :=
      [{ opcode := .const4, registers := [0], literal := some 1 },
        { opcode := .packedSwitchPayload, payload := some (.packedSwitch 7 [5]) }]
    decode t .placeholders us = .ok is ∧
      (is.map codeUnits).sum = us.length ∧
      ((Reader.ofUnits t .placeholders us).after 1).next.1 =
        some (.ok (1, { opcode := .packedSwitchPayload,
                        payload := some (.packedSwitch 7 [5]) })) ∧
      decode t .placeholders (us ++ [0x000e]) = .ok (is ++ [{ opcode := .returnVoid }]) ∧
      (∃ e, decode t .placeholders (us ++ [0x0013]) = .error e) ∧
      decodeFirst .placeholders (Source.guarded (us.drop 1)) t =
        Source.settled (decodeHead t .placeholders (us.drop 1)) := by
  intro t us is
  have h : decode t .placeholders us = .ok is := by decide +kernel
  have hreturn : decode t .placeholders [0x000e] = .ok [{ opcode := .returnVoid }] := by
    decide +kernel
  have hhalf : decode t .placeholders [0x0013] =
      .error ⟨.truncatedInstruction .const16 2, ["instruction at 0x0"]⟩ := by
    decide +kernel
  obtain ⟨hstream, hbounds⟩ := decode_tiles_stream t .placeholders us
  obtain ⟨hsum, haddresses, hmore⟩ := hstream is h
  have hreader := (haddresses ⟨1, is, [], [], []⟩ rfl).2.2 1
  exact ⟨h, hsum, hreader, (hmore _).1 _ hreturn, (hmore _).2 _ hhalf, hbounds 1 (by decide)⟩

end Instruction

end SymbolicDex
