import SymbolicDex.Proofs.Instruction.Tiling

/- A reader can be asked for its next item without giving it away. The item it keeps
   then may be a failure, and the stream behind it has moved on, but neither shows:
   what is pending counts the kept item in. Peeking answers with the head of what is
   pending and leaves all of it, taking gives the head away, and so a run that mixes
   both is followed through what is pending alone.

   What is proved:
     1. `Reader.peek_spec`, `Reader.call_spec`: the answer to one call, and what is
        pending after it.
     2. `Reader.taken_eq`: the items taken in a run are those pending at its start, as
        many as were asked for, whatever was peeked at in between.
     3. `Instruction.drop_itemsFrom_error`: a failure is the last item of its stream.
     4. `Reader.lookahead_invisible`: any run beside plain iteration. -/
namespace SymbolicDex

namespace Instruction

variable {t : OpcodeTable} {r : Resolver} {us : List UInt16}

/-- Nothing comes after a malformed instruction. -/
theorem drop_itemsFrom_error {count address k : Nat} {e : Failure}
    (h : (itemsFrom t r count address us)[k]? = some (.error e)) :
    (itemsFrom t r count address us).drop (k + 1) = [] := by
  induction count generalizing address us k with
  | zero => simp [itemsFrom]
  | succ count ih =>
    by_cases hus : us = []
    · rw [hus, itemsFrom_nil, List.drop_nil]
    cases hitem : itemAt t r address us with
    | error e' => simp [itemsFrom_error hus hitem]
    | ok item =>
      obtain ⟨i, -, hhead⟩ := itemAt_eq_ok hitem
      rw [itemsFrom_cons hus hhead] at h ⊢
      cases k with
      | zero => simp at h
      | succ k => exact ih h

end Instruction

namespace Reader

open Instruction

/-! ## Runs of calls -/

/-- What a reader can be asked for: to show its next item, or to give it away. -/
inductive Call where
  | peek
  | next
deriving DecidableEq

/-- The answer to a call, and the reader after it. -/
def call (r : Reader) : Call → Option Item × Reader
  | .peek => r.peek
  | .next => r.next

/-- The reader after a run of calls. -/
def afterCalls (r : Reader) : List Call → Reader
  | [] => r
  | c :: cs => (r.call c).2.afterCalls cs

/-- The calls of a run, each with its answer. -/
def answers (r : Reader) : List Call → List (Call × Option Item)
  | [] => []
  | c :: cs => (c, (r.call c).1) :: (r.call c).2.answers cs

/-- What a run is given to keep, in order. -/
def taken (r : Reader) (calls : List Call) : List (Option Item) :=
  ((r.answers calls).filter fun asked => asked.1 = .next).map (·.2)

/-! ## One call -/

theorem advance_ahead (r : Reader) : r.advance.2.ahead = r.ahead := by
  obtain ⟨t, resolver, address, us, ahead⟩ := r
  cases us with
  | nil => rfl
  | cons u us =>
    simp only [advance]
    split <;> rfl

theorem pending_of_ahead {r : Reader} {item : Item} (h : r.ahead = some item) :
    r.pending = item :: { r with ahead := none }.pending := by
  simp [pending, h]

/-- Keeping an item in front is having it pending. -/
theorem pending_keep {r : Reader} (h : r.ahead = none) (item : Option Item) :
    { r with ahead := item }.pending = item.toList ++ r.pending := by
  simp [pending, h]

theorem peek_spec (r : Reader) : r.peek.1 = r.pending.head? ∧ r.peek.2.pending = r.pending := by
  cases h : r.ahead with
  | some item =>
    simp only [peek, h]
    rw [pending_of_ahead h]
    exact ⟨rfl, trivial⟩
  | none =>
    obtain ⟨hitem, hrest⟩ := r.advance_spec h
    -- the stream has moved on, and the item it gave is put back in front of it
    simp only [peek, h]
    refine ⟨hitem, ?_⟩
    have hahead : r.advance.2.ahead = none := r.advance_ahead.trans h
    calc { r.advance.2 with ahead := r.advance.1 }.pending
        = r.advance.1.toList ++ r.advance.2.pending := pending_keep hahead _
      _ = r.pending.head?.toList ++ r.pending.tail := by rw [hitem, hrest]
      _ = r.pending := by cases r.pending <;> rfl

/-- Every call is answered with the first pending item, and only taking removes it. -/
theorem call_spec (r : Reader) (c : Call) :
    (r.call c).1 = r.pending.head? ∧
      (r.call c).2.pending = r.pending.drop ([c].count .next) := by
  cases c with
  | peek => exact r.peek_spec
  | next => exact ⟨r.next_spec.1, r.next_spec.2.trans List.drop_one.symm⟩

/-! ## Runs -/

theorem pending_afterCalls (r : Reader) (calls : List Call) :
    (r.afterCalls calls).pending = r.pending.drop (calls.count .next) := by
  induction calls generalizing r with
  | nil => rfl
  | cons c cs ih =>
    have hcount : (c :: cs).count .next = [c].count .next + cs.count .next := by
      rw [← List.count_append, List.singleton_append]
    rw [afterCalls, ih, (r.call_spec c).2, List.drop_drop, hcount]

/-- A run keeps what was pending at its start, item by item. -/
theorem taken_eq (r : Reader) (calls : List Call) :
    r.taken calls = (List.range (calls.count .next)).map fun k => r.pending[k]? := by
  induction calls generalizing r with
  | nil => rfl
  | cons c cs ih =>
    cases c with
    | peek =>
      calc r.taken (.peek :: cs)
          = r.peek.2.taken cs := by simp [taken, answers, call]
        _ = (List.range (cs.count .next)).map fun k => r.pending[k]? := by
          rw [ih, r.peek_spec.2]
        _ = _ := by simp
    | next =>
      have hlater (k : Nat) : r.next.2.pending[k]? = r.pending[k + 1]? := by
        rw [r.next_spec.2, List.getElem?_tail]
      calc r.taken (.next :: cs)
          = r.next.1 :: r.next.2.taken cs := by simp [taken, answers, call]
        _ = r.pending[0]? :: (List.range (cs.count .next)).map fun k => r.pending[k + 1]? := by
          rw [ih, r.next_spec.1, List.head?_eq_getElem?]
          simp only [hlater]
        _ = _ := by
          rw [List.count_cons_self, List.range_succ_eq_map, List.map_cons, List.map_map]
          rfl

/-- With nothing pending, every call is answered with nothing. -/
theorem answers_of_pending_nil {r : Reader} (h : r.pending = []) (calls : List Call) :
    ∀ asked ∈ r.answers calls, asked.2 = none := by
  induction calls generalizing r with
  | nil => simp [answers]
  | cons c cs ih =>
    obtain ⟨hanswer, hrest⟩ := r.call_spec c
    rw [h] at hanswer hrest
    intro asked hasked
    rw [answers, List.mem_cons] at hasked
    cases hasked with
    | inl heq => rw [heq, hanswer]; rfl
    | inr hmem => exact ih (hrest.trans List.drop_nil) asked hmem

/-! ## Plain iteration -/

/-- Peeking does not show. In a run that mixes both calls, what is taken is what a
    reader gives that is never peeked at: the items of the stream in order, and
    nothing ever after. What is shown, however often, is what is taken next. Once a
    failure is taken, nothing more is shown or given. -/
theorem lookahead_invisible (t : OpcodeTable) (resolver : Resolver) (us : List UInt16)
    (calls : List Call) :
    let start := ofUnits t resolver us
    let reader := start.afterCalls calls
    start.taken calls =
        (List.range (calls.count .next)).map (fun k => (start.after k).next.1) ∧
      (∀ k, (start.after k).next.1 = (items t resolver us)[k]?) ∧
      (∀ more, (reader.peek.2.afterCalls (List.replicate more .peek)).next.1 = reader.peek.1) ∧
      ∀ e, reader.next.1 = some (.error e) →
        ∀ more, ∀ asked ∈ reader.next.2.answers more, asked.2 = none := by
  intro start reader
  have hpending : reader.pending = (items t resolver us).drop (calls.count .next) :=
    start.pending_afterCalls calls
  refine ⟨?_, ?_, ?_, ?_⟩
  · simp only [start.taken_eq, next_after]
  · exact start.next_after
  · intro more
    have hcount : (List.replicate more Call.peek).count .next = 0 := by
      simp [List.count_replicate]
    rw [(next_spec _).1, pending_afterCalls, reader.peek_spec.2, reader.peek_spec.1, hcount]
    rfl
  · intro e he
    rw [(next_spec _).1, hpending, List.head?_drop] at he
    apply answers_of_pending_nil
    rw [(next_spec _).2, hpending, List.tail_drop]
    exact drop_itemsFrom_error he

/-- A small constant and half of a two-unit instruction. The constant is taken, the
    failure behind it is shown twice and then taken, and that is all. -/
theorem lookahead_invisible_truncated :
    let start := ofUnits (OpcodeTable.ofApi 28) .placeholders [0x1012, 0x0013]
    let reader := start.afterCalls [.peek, .next, .peek]
    let constant : Instruction := { opcode := .const4, registers := [0], literal := some 1 }
    let failure : Failure := ⟨.truncatedInstruction .const16 2, ["instruction at 0x1"]⟩
    start.taken [.peek, .next, .peek] = [some (.ok (0, constant))] ∧
      reader.next.1 = some (.error failure) ∧
      (reader.peek.2.afterCalls [.peek]).next.1 = reader.peek.1 ∧
      ∀ asked ∈ reader.next.2.answers [.peek, .next], asked.2 = none := by
  intro start reader constant failure
  have hfailure : reader.next.1 = some (.error failure) := by decide +kernel
  obtain ⟨htaken, -, hpeek, hlast⟩ :=
    lookahead_invisible (OpcodeTable.ofApi 28) .placeholders [0x1012, 0x0013]
      [.peek, .next, .peek]
  exact ⟨htaken.trans (by decide +kernel), hfailure, hpeek 1, hlast failure hfailure _⟩

end Reader

end SymbolicDex
