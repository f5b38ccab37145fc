import SymbolicDex.Proofs.Analysis.FlowReach
import SymbolicDex.Proofs.Analysis.HintedAccesses
import SymbolicDex.Proofs.Analysis.NullAccesses

/- What the notes of an analysis tell. A note is made where an instruction gets a
   guess that helps it or a mark that it can only throw, and both stay: whoever has
   one does not wait, and only who waits is helped or given up. So no instruction
   has two notes.

   What is proved:
     1. `tryCandidates_bears`, `recoverFrom_recovers`: an attempt that helps makes one
        note, of the guess that it leaves with the instruction; any other leaves
        notes, guesses and marks alone.
     2. `Noted.add`: a note for an instruction without guess and mark keeps the
        notes in order.
     3. `Steps.noted`: so they are in order at every step.
     4. `notes_account_for_recovery`: the notes of a finished analysis name the
        instructions that were helped and those that were given up, each once, and
        an access without a note was restored from the state before it. -/
namespace SymbolicDex

/-! ## Addresses -/

theorem Instruction.le_of_mem_addressesFrom {start a : Nat} {is : List Instruction}
    (h : a ∈ addressesFrom start is) : start ≤ a := by
  induction is generalizing start with
  | nil => cases h
  | cons i is ih =>
    rcases List.mem_cons.1 h with rfl | h
    · exact Nat.le_refl _
    · exact Nat.le_trans (Nat.le_add_right _ _) (ih h)

theorem Instruction.nodup_addressesFrom (start : Nat) (is : List Instruction) :
    (addressesFrom start is).Nodup := by
  induction is generalizing start with
  | nil => exact List.nodup_nil
  | cons i is ih =>
    refine List.nodup_cons.2 ⟨fun hmem => ?_, ih _⟩
    have hle := le_of_mem_addressesFrom hmem
    have hpos := i.codeUnits_pos
    omega

/-- An address tells the instruction. -/
theorem MethodContext.Built.address_injective {c : MethodContext} (hc : c.Built) {ix j : Nat}
    (hix : ix < c.code.instructions.length) (hj : j < c.code.instructions.length)
    (h : c.graph.address ix = c.graph.address j) : ix = j := by
  have haddresses : c.graph.addresses = c.code.addresses :=
    FlowGraph.build_addresses (of_inv hc).2.2.2.2.1
  have hlength := FlowGraph.length_addresses c.code
  have hread {k : Nat} (hk : k < c.code.instructions.length) :
      c.code.addresses[k]? = some (c.graph.address k) := by
    unfold FlowGraph.address
    rw [haddresses, List.getD_eq_getElem?_getD, List.getElem?_eq_getElem (by omega)]
    rfl
  have hnodup : c.code.addresses.Nodup := Instruction.nodup_addressesFrom 0 _
  exact (List.getElem?_inj (by omega) hnodup).1 ((hread hix).trans (h ▸ (hread hj).symm))

/-! ## What a note is about -/

/-- What notes tell of an instruction: its given form, its guess and its mark. -/
def Point.bearing (p : Point) : Instruction × Option RegisterType × Option Nat :=
  (p.given, p.hint, p.throwing)

namespace Recovery

theorem addGuess_mem {found : List Candidate} {guess : NoteKind × Option Descriptor}
    {candidate : Candidate} (h : candidate ∈ addGuess found guess) :
    candidate ∈ found ∨ candidate.kind = guess.1 := by
  unfold addGuess at h
  split at h
  · exact .inl h
  · split at h
    · rcases List.mem_append.1 h with h | h
      · exact .inl h
      · rw [List.mem_singleton.1 h]
        exact .inr rfl
    · exact .inl h

/-- A guess is never that there is no type. -/
theorem candidates_kind {code : Code} {is : List Instruction} {ix address r : Nat}
    {candidate : Candidate} (h : candidate ∈ candidates code is ix address r) :
    candidate.kind ≠ .unresolvable := by
  have hguesses (guesses : List (NoteKind × Option Descriptor)) (found : List Candidate)
      (h : candidate ∈ guesses.foldl addGuess found) :
      candidate ∈ found ∨ ∃ guess ∈ guesses, candidate.kind = guess.1 := by
    induction guesses generalizing found with
    | nil => exact .inl h
    | cons guess guesses ih =>
      rcases ih _ h with h | ⟨g, hg, hkind⟩
      · rcases addGuess_mem h with h | hkind
        · exact .inl h
        · exact .inr ⟨guess, List.mem_cons_self, hkind⟩
      · exact .inr ⟨g, List.mem_cons_of_mem _ hg, hkind⟩
  rcases hguesses _ _ h with h | ⟨guess, hguess, hkind⟩
  · cases h
  · rw [hkind]
    simp only [List.mem_cons, List.not_mem_nil, or_false] at hguess
    rcases hguess with rfl | rfl | rfl | rfl <;> exact fun h => nomatch h

end Recovery

namespace Session

variable {c : MethodContext} {memo : Memo} {s s' s₁ : Session} {ix r : Nat} {ts : List Nat}

/-- The same notes, guesses and marks. -/
structure SameBearings (s s' : Session) : Prop where
  length : s'.points.length = s.points.length
  notes : s'.notes = s.notes
  points : ∀ j, (s'.point j).bearing = (s.point j).bearing

namespace SameBearings

theorem refl (s : Session) : SameBearings s s := ⟨rfl, rfl, fun _ => rfl⟩

theorem trans {s'' : Session} (h : SameBearings s s') (h' : SameBearings s' s'') :
    SameBearings s s'' :=
  ⟨h'.length.trans h.length, h'.notes.trans h.notes, fun j => (h'.points j).trans (h.points j)⟩

theorem of_set {p : Point} (hix : ix < s.points.length) (hpoints : s'.points = s.points.set ix p)
    (hnotes : s'.notes = s.notes) (hp : p.bearing = (s.point ix).bearing) : SameBearings s s' := by
  refine ⟨by rw [hpoints, List.length_set], hnotes, fun j => ?_⟩
  by_cases hj : j = ix
  · rw [hj, point_set_self hpoints hix, hp]
  · rw [point_set_ne hpoints hj]

theorem foldl (c : MethodContext) (s : Session) (ts : List Nat) :
    SameBearings s (ts.foldl (updatePre c) s) := by
  have hnotes (s : Session) (t : Nat) : (updatePre c s t).notes = s.notes := by
    rw [updatePre_eq]
    split
    · rfl
    · unfold enqueue
      split <;> rfl
  refine ⟨length_foldl_updatePre c s ts, ?_, fun j =>
    point_map_eq (map_foldl_updatePre c (fun _ _ => rfl) s ts) (g := Point.bearing) j⟩
  induction ts generalizing s with
  | nil => rfl
  | cons t ts ih => rw [List.foldl_cons, ih, hnotes]

end SameBearings

theorem Visit.sameBearings (hix : ix < s.points.length) (hvisit : Visit c ix s s₁ ts) :
    SameBearings s (ts.foldl (updatePre c) s₁) := by
  refine SameBearings.trans ?_ (.foldl c s₁ ts)
  cases hvisit <;> exact .of_set hix rfl rfl rfl

/-! ## Attempts -/

/-- One note was made, and the instruction `ix` now bears what `p` does. -/
structure Adds (ix : Nat) (p : Point) (n : Note) (s s' : Session) : Prop where
  length : s'.points.length = s.points.length
  notes : s'.notes = s.notes ++ [n]
  self : (s'.point ix).bearing = p.bearing
  others : ∀ j, j ≠ ix → (s'.point j).bearing = (s.point j).bearing

theorem Adds.of_set {p q : Point} {n : Note} (hix : ix < s.points.length)
    (hpoints : s₁.points = s.points.set ix q) (hq : q.bearing = p.bearing)
    (hnotes : s₁.notes = s.notes ++ [n]) (ts : List Nat) :
    Adds ix p n s (ts.foldl (updatePre c) s₁) := by
  have hpassed := SameBearings.foldl c s₁ ts
  refine ⟨?_, hpassed.notes.trans hnotes, (hpassed.points ix).trans ?_, fun j hj =>
    (hpassed.points j).trans ?_⟩
  · rw [hpassed.length, hpoints, List.length_set]
  · rw [point_set_self hpoints hix, hq]
  · rw [point_set_ne hpoints hj]

/-- A guess for the register `r` helped the instruction `ix`, and a note was made
    of it. -/
def HelpedBy (c : MethodContext) (ix r : Nat) (candidate : Recovery.Candidate)
    (s s' : Session) : Prop :=
  Adds ix { s.point ix with hint := some (RegisterType.reference candidate.type) }
    ⟨c.graph.address ix, candidate.kind, r, some candidate.type, (s.point ix).given.text⟩ s s'

theorem HelpedBy.before {candidate : Recovery.Candidate} (h : SameBearings s s₁)
    (h' : HelpedBy c ix r candidate s₁ s') : HelpedBy c ix r candidate s s' := by
  have hgiven : (s₁.point ix).given = (s.point ix).given := congrArg Prod.fst (h.points ix)
  have hthrowing : (s₁.point ix).throwing = (s.point ix).throwing :=
    congrArg (·.2.2) (h.points ix)
  refine ⟨h'.length.trans h.length, ?_, h'.self.trans ?_, fun j hj =>
    (h'.others j hj).trans (h.points j)⟩
  · rw [h'.notes, h.notes, hgiven]
  · simp only [Point.bearing, hgiven, hthrowing]

/-- What an attempt with some guesses leaves of notes, guesses and marks. -/
def Attempt.Bears (c : MethodContext) (ix r : Nat) (candidates : List Recovery.Candidate)
    (s : Session) : Attempt → Prop
  | .resolved s' => ∃ candidate ∈ candidates, HelpedBy c ix r candidate s s'
  | .stuck s' => SameBearings s s'
  | .endless _ => True

theorem Attempt.Bears.cons {candidate : Recovery.Candidate} {rest : List Recovery.Candidate}
    {a : Attempt} (hsame : SameBearings s s₁) (h : a.Bears c ix r rest s₁) :
    a.Bears c ix r (candidate :: rest) s := by
  cases a with
  | resolved s' =>
    obtain ⟨candidate, hmem, hhelped⟩ := h
    exact ⟨candidate, List.mem_cons_of_mem _ hmem, hhelped.before hsame⟩
  | stuck s' => exact hsame.trans h
  | endless s' => trivial

/-- A guess that does not help is taken back. -/
theorem tryCandidates_bears (candidates : List Recovery.Candidate) (hix : ix < s.points.length)
    (hhint : (s.point ix).hint = none) :
    (tryCandidates c ix r s candidates).Bears c ix r candidates s := by
  induction candidates generalizing s with
  | nil => exact .refl s
  | cons candidate rest ih =>
    unfold tryCandidates
    dsimp only
    rw [update_eq _ _ hix]
    rcases analyzeAt_set_cases c hix s.queue
        (p := { s.point ix with hint := some (RegisterType.reference candidate.type) }) rfl rfl
        _ rfl with
      ⟨e, cur, -, hanalyze⟩ | ⟨cur, post, narrowing, memo, -, -, -, hanalyze⟩
    · rw [hanalyze]
      have hrest (memo : Memo) : (tryCandidates c ix r ⟨s.points.set ix { s.point ix with
          current := cur, post := (s.point ix).pre, hint := none }, s.queue, s.notes, memo⟩
          rest).Bears c ix r (candidate :: rest) s := by
        have hsame : SameBearings s ⟨s.points.set ix { s.point ix with
            current := cur, post := (s.point ix).pre, hint := none }, s.queue, s.notes, memo⟩ :=
          .of_set hix rfl rfl (by simp only [Point.bearing, hhint])
        refine (ih ?_ ?_).cons hsame
        · rw [hsame.length]
          exact hix
        · rw [point_set_self (s := s) rfl hix]
      cases e with
      | endless => trivial
      | parked r' f =>
        dsimp only
        rw [update_set hix]
        exact hrest _
      | failed f =>
        dsimp only
        rw [update_set hix]
        exact hrest _
    · rw [hanalyze]
      dsimp only
      rw [update_set hix]
      refine ⟨candidate, List.mem_cons_self, Adds.of_set hix (by rfl) (by rfl) ?_ _⟩
      have hp (p : Point) : (⟨s.points.set ix p, s.queue, s.notes, memo⟩ : Session).point ix = p :=
        point_set_self (s := s) rfl hix
      rw [hp]

/-- Recovery comes to the instruction `ix`, which waits for the register `r`, after
    it helped none of those before, and the fallbacks guess `candidate`. -/
def Tries (c : MethodContext) (s : Session) (waiting : List Nat) (ix r : Nat)
    (candidate : Recovery.Candidate) : Prop :=
  ∃ before rest t f, waiting = before ++ ix :: rest ∧ recoverFrom c s before = .stuck t ∧
    (t.point ix).parked = some ⟨r, f⟩ ∧
    candidate ∈ Recovery.candidates c.code t.currents ix (c.graph.address ix) r

theorem Tries.cons {candidate : Recovery.Candidate} {i : Nat} {waiting : List Nat}
    (hskip : ∀ is, recoverFrom c s (i :: is) = recoverFrom c s₁ is)
    (h : Tries c s₁ waiting ix r candidate) : Tries c s (i :: waiting) ix r candidate := by
  obtain ⟨before, rest, t, f, rfl, hstuck, hmem⟩ := h
  exact ⟨i :: before, rest, t, f, rfl, (hskip before).trans hstuck, hmem⟩

/-- What an attempt to help those who wait leaves of notes, guesses and marks. -/
def Attempt.Recovers (c : MethodContext) (s : Session) (waiting : List Nat) : Attempt → Prop
  | .resolved s' => ∃ ix r candidate, Tries c s waiting ix r candidate ∧
      HelpedBy c ix r candidate s s'
  | .stuck s' => SameBearings s s'
  | .endless _ => True

/-- Recovery passes over the instruction `i`. -/
theorem Attempt.Recovers.cons {i : Nat} {waiting : List Nat} {a : Attempt}
    (hskip : ∀ is, recoverFrom c s (i :: is) = recoverFrom c s₁ is) (hsame : SameBearings s s₁)
    (h : a.Recovers c s₁ waiting) : a.Recovers c s (i :: waiting) := by
  cases a with
  | resolved s' =>
    obtain ⟨ix, r, candidate, htries, hhelped⟩ := h
    exact ⟨ix, r, candidate, htries.cons hskip, hhelped.before hsame⟩
  | stuck s' => exact hsame.trans h
  | endless s' => trivial

/-- Recovery of an instruction that waits and was not tried before. -/
theorem recoverFrom_cons {parked : Parked} (hparked : (s.point ix).parked = some parked)
    (htried : (s.point ix).recoveryTried = false) (is : List Nat) :
    recoverFrom c s (ix :: is) =
      match tryCandidates c ix parked.register
          (s.update ix fun p => { p with recoveryTried := true })
          (Recovery.candidates c.code s.currents ix (c.graph.address ix) parked.register) with
      | .stuck s => recoverFrom c s is
      | other => other := by
  have hcurrents : (s.update ix fun p => { p with recoveryTried := true }).currents =
      s.currents := by
    unfold currents update
    rw [map_modify (h := id) (by intro p; rfl), List.modify_id]
  rw [← hcurrents, recoverFrom, hparked]
  exact if_neg (by simp [htried])

theorem recoverFrom_recovers (waiting : List Nat)
    (hwaiting : ∀ ix ∈ waiting, ix < s.points.length)
    (hhints : ∀ ix, (s.point ix).hint.isSome → (s.point ix).recoveryTried = true) :
    (recoverFrom c s waiting).Recovers c s waiting := by
  induction waiting generalizing s with
  | nil => exact .refl s
  | cons ix rest ih =>
    obtain ⟨hix, hrest⟩ := List.forall_mem_cons.1 hwaiting
    have hover {s₁ : Session} (hskip : ∀ is, recoverFrom c s (ix :: is) = recoverFrom c s₁ is)
        (hsame : SameBearings s s₁)
        (hhints₁ : ∀ j, (s₁.point j).hint.isSome → (s₁.point j).recoveryTried = true) :
        (recoverFrom c s (ix :: rest)).Recovers c s (ix :: rest) := by
      rw [hskip]
      exact (ih (fun j hj => hsame.length ▸ hrest j hj) hhints₁).cons hskip hsame
    cases hparked : (s.point ix).parked with
    | none => exact hover (fun is => by rw [recoverFrom, hparked]) (.refl s) hhints
    | some parked =>
      cases htried : (s.point ix).recoveryTried with
      | true =>
        refine hover (fun is => ?_) (.refl s) hhints
        rw [recoverFrom, hparked]
        exact if_pos htried
      | false =>
        -- guesses come from recovery alone, and this one has not begun
        have hhint : (s.point ix).hint = none := by
          cases hsome : (s.point ix).hint with
          | none => rfl
          | some t => exact absurd (hhints ix (by rw [hsome]; rfl)) (by simp [htried])
        have hstep := recoverFrom_cons (c := c) hparked htried
        generalize hs₁ : s.update ix (fun p => { p with recoveryTried := true }) = s₁ at hstep
        generalize hcandidates : Recovery.candidates c.code s.currents ix (c.graph.address ix)
          parked.register = candidates at hstep
        have hpoints : s₁.points = s.points.set ix { s.point ix with recoveryTried := true } := by
          rw [← hs₁, update_eq _ _ hix]
        have hp := point_set_self hpoints hix
        have hsame : SameBearings s s₁ := .of_set hix hpoints (by rw [← hs₁]; rfl) rfl
        have hix₁ : ix < s₁.points.length := by rwa [hsame.length]
        have hhint₁ : (s₁.point ix).hint = none := by rw [hp]; exact hhint
        have hbears := tryCandidates_bears (c := c) (r := parked.register) candidates hix₁ hhint₁
        have hkept := (tryCandidates_inv (c := c) (r := parked.register) candidates hix₁
          (by rw [hp]; exact hparked ▸ rfl) hhint₁ (by rw [hp])).2
        cases htry : tryCandidates c ix parked.register s₁ candidates with
        | stuck s₂ =>
          rw [htry] at hbears hstep
          obtain ⟨-, -, hkept⟩ := hkept s₂ htry
          refine hover hstep (hsame.trans hbears) fun j => ?_
          rw [(hkept j).1, (hkept j).2]
          by_cases hj : j = ix
          · rw [hj, hp]
            exact fun _ => rfl
          · rw [point_set_ne hpoints hj]
            exact hhints j
        | resolved s₂ =>
          rw [htry] at hbears hstep
          rw [hstep]
          obtain ⟨candidate, hmem, hhelped⟩ := hbears
          exact ⟨ix, parked.register, candidate, ⟨[], rest, s, parked.failure, rfl, rfl, hparked,
            hcandidates ▸ hmem⟩, hhelped.before hsame⟩
        | endless s₂ =>
          rw [htry] at hstep
          rw [hstep]
          trivial

/-! ## The notes of a session -/

/-- At some step of the run recovery came to the instruction `ix`, and the
    fallbacks guessed `candidate` for its register. -/
def Proposed (c : MethodContext) (memo : Memo) (ix r : Nat)
    (candidate : Recovery.Candidate) : Prop :=
  ∃ count u, run c count (Session.initial c memo) = (.unfinished, u) ∧ u.queue = [] ∧
    Tries c u u.waiting ix r candidate

/-- The note is about the instruction `ix`, and says what was done with it. -/
inductive About (c : MethodContext) (memo : Memo) (ix : Nat) (p : Point) : Note → Prop where
  | unresolvable {r : Nat} (hthrowing : p.throwing = some r) :
      About c memo ix p ⟨c.graph.address ix, .unresolvable, r, none, p.given.text⟩
  | recovered {r : Nat} {candidate : Recovery.Candidate}
      (hhint : p.hint = some (RegisterType.reference candidate.type))
      (hproposed : Proposed c memo ix r candidate) :
      About c memo ix p
        ⟨c.graph.address ix, candidate.kind, r, some candidate.type, p.given.text⟩

namespace About

variable {p p' : Point} {n : Note}

theorem address (h : About c memo ix p n) : n.address = c.graph.address ix := by
  cases h <;> rfl

theorem congr (h : About c memo ix p n) (hp : p'.bearing = p.bearing) : About c memo ix p' n := by
  obtain ⟨hgiven, hhint, hthrowing⟩ : p'.given = p.given ∧ p'.hint = p.hint ∧
      p'.throwing = p.throwing := by
    simpa only [Point.bearing, Prod.mk.injEq] using hp
  cases h with
  | unresolvable h => exact hgiven ▸ .unresolvable (hthrowing.trans h)
  | recovered h hproposed => exact hgiven ▸ .recovered (hhint.trans h) hproposed

end About

/-- No two notes are about one instruction. -/
structure Noted (c : MethodContext) (memo : Memo) (s : Session) : Prop where
  distinct : (s.notes.map (·.address)).Nodup
  about : ∀ n ∈ s.notes, ∃ ix < s.points.length, About c memo ix (s.point ix) n

namespace Noted

theorem of_same (h : Noted c memo s) (hsame : SameBearings s s') : Noted c memo s' := by
  refine ⟨hsame.notes ▸ h.distinct, fun n hn => ?_⟩
  obtain ⟨ix, hix, habout⟩ := h.about n (hsame.notes ▸ hn)
  exact ⟨ix, hsame.length ▸ hix, habout.congr (hsame.points ix)⟩

/-- A note about an instruction that has neither a guess nor a mark. -/
theorem add (hc : c.Built) (hlength : s.points.length = c.code.instructions.length)
    (h : Noted c memo s) (hix : ix < s.points.length)
    (hfree : (s.point ix).throwing = none ∧
      ∀ d, (s.point ix).hint ≠ some (RegisterType.reference d))
    {p : Point} {n : Note} (hadds : Adds ix p n s s') (habout : About c memo ix p n) :
    Noted c memo s' := by
  have hother : ∀ n' ∈ s.notes, ∀ j < s.points.length, About c memo j (s.point j) n' →
      j ≠ ix := by
    rintro n' - j - habout' rfl
    cases habout' with
    | unresolvable hthrowing => cases hfree.1.symm.trans hthrowing
    | recovered hhint => exact hfree.2 _ hhint
  constructor
  · rw [hadds.notes, List.map_append, List.nodup_append']
    refine ⟨h.distinct, List.nodup_singleton _, fun address hold hnew => ?_⟩
    obtain ⟨n', hn', rfl⟩ := List.mem_map.1 hold
    obtain ⟨j, hj, habout'⟩ := h.about n' hn'
    have hsame : n'.address = n.address := List.mem_singleton.1 hnew
    rw [habout'.address, habout.address] at hsame
    exact hother n' hn' j hj habout'
      (hc.address_injective (hlength ▸ hj) (hlength ▸ hix) hsame)
  · intro n' hn'
    rw [hadds.notes] at hn'
    rcases List.mem_append.1 hn' with hn' | hn'
    · obtain ⟨j, hj, habout'⟩ := h.about n' hn'
      exact ⟨j, hadds.length ▸ hj,
        habout'.congr (hadds.others j (hother n' hn' j hj habout'))⟩
    · rw [List.mem_singleton.1 hn']
      exact ⟨ix, hadds.length ▸ hix, habout.congr hadds.self⟩

end Noted

/-- Who waits has neither a guess nor a mark. -/
theorem Accounted.free (h : Accounted c ix (s.status ix)) (hok : PointOk c ix (s.status ix))
    (hparked : (s.point ix).parked.isSome) :
    (s.point ix).throwing = none ∧
      ∀ d, (s.point ix).hint ≠ some (RegisterType.reference d) := by
  refine ⟨(hok.parked hparked).2, fun d hd => ?_⟩
  obtain ⟨-, hnone, -⟩ := h.helped d hd
  rw [status_point] at hnone
  rw [hnone] at hparked
  cases hparked

theorem Aids.accounted (hc : c.Built) (hmemo : memo.busy = []) (h : Aids c s s')
    (hsound : Sound c memo s) (haccounted : Everywhere (Accounted c) s) :
    Sound c memo s' ∧ Everywhere (Accounted c) s' := by
  refine h.invariant hc (fun hsound hix haccounted haid => ?_) hsound haccounted
  exact haccounted.aid hc (Accounted.stable c) hsound hix haid
    ((haccounted _ hix).aid hmemo hsound hix haid)

theorem giveUpFrom_noted (hc : c.Built) (hmemo : memo.busy = []) {waiting : List Nat}
    (hwaiting : ∀ ix ∈ waiting, ix < s.points.length) (hsound : Sound c memo s)
    (haccounted : Everywhere (Accounted c) s) (hnoted : Noted c memo s)
    (h : giveUpFrom c s waiting = .running s') : Noted c memo s' := by
  induction waiting generalizing s with
  | nil =>
    cases h
    exact hnoted
  | cons ix rest ih =>
    obtain ⟨hix, hrest⟩ := List.forall_mem_cons.1 hwaiting
    unfold giveUpFrom at h
    split at h
    · exact ih hrest hsound haccounted hnoted h
    · cases h
    · rename_i r hparked
      dsimp only at h
      generalize hnote : (⟨c.graph.address ix, .unresolvable, r, none,
        (s.point ix).given.text⟩ : Note) = note at h
      rw [update_eq ⟨s.points, s.queue, s.notes ++ [note], s.memo⟩ _ hix,
        propagate_exceptional] at h
      have haid : Aid c ix s _ _ := @Aid.gaveUp c ix s r note hparked (by rw [← hnote])
      have hfree := (haccounted ix hix).free (hsound.points ix hix) (by rw [hparked]; rfl)
      obtain ⟨hsound', haccounted'⟩ := (Aids.single hix haid).accounted hc hmemo hsound haccounted
      refine ih (fun j hj => ?_) hsound' haccounted' ?_ h
      · rw [length_foldl_updatePre, List.length_set]
        exact hrest j hj
      · refine hnoted.add (n := note) hc hsound.length hix hfree
          (Adds.of_set (p := { s.point ix with throwing := some r }) hix (by rfl) (by rfl)
            (by rfl) _) ?_
        rw [← hnote]
        exact .unresolvable rfl

theorem Steps.noted (hc : c.Built) (hmemo : memo.busy = []) {count : Nat}
    (h : Steps c (Session.initial c memo) count s) : Noted c memo s := by
  induction h with
  | start =>
    have hnotes : (Session.initial c memo).notes = [] := by
      rcases initial_cases c memo with ⟨-, hs⟩ | ⟨-, hs⟩
      · rw [hs]
        rfl
      · rw [hs]
        exact (SameBearings.foldl c (Session.blank c memo) [0]).notes
    exact ⟨by rw [hnotes]; exact List.nodup_nil, by simp [hnotes]⟩
  | @next count u s hsteps hstep ih =>
    have hsound := hsteps.sound hc
    have haccounted := hsteps.accounted hc hmemo
    have hwaiting : ∀ ix ∈ u.waiting, ix < u.points.length := fun ix hix => (mem_waiting.1 hix).1
    unfold step at hstep
    split at hstep
    · rename_i ix queue hqueue
      have hix := hsound.range ix (by rw [hqueue]; exact List.mem_cons_self)
      obtain ⟨s₁, ts, hvisit, rfl⟩ := visit_inv hqueue hix hstep
      exact ih.of_same (hvisit.sameBearings hix)
    · rename_i hqueue
      split at hstep
      · cases hstep
      · have hrecovers := recoverFrom_recovers (c := c) u.waiting hwaiting hsound.hints
        split at hstep
        · rename_i s' hrecover
          cases hstep
          rw [hrecover] at hrecovers
          obtain ⟨ix, r, candidate, htries, hhelped⟩ := hrecovers
          obtain ⟨before, rest, t, f, hsplit, -⟩ := id htries
          obtain ⟨hix, hparked⟩ := mem_waiting.1 (show ix ∈ u.waiting by rw [hsplit]; simp)
          have hfree := (haccounted ix hix).free (hsound.points ix hix) hparked
          exact ih.add hc hsound.length hix hfree hhelped
            (.recovered rfl ⟨count, u, run_unfinished_iff.2 hsteps, hqueue, htries⟩)
        · rename_i t hrecover
          rw [hrecover] at hrecovers
          have hsame : SameBearings u t := hrecovers
          obtain ⟨haids, -⟩ := (recoverFrom_inv (c := c) u.waiting hwaiting hsound.hints).2 t
            hrecover
          obtain ⟨hsound', haccounted'⟩ := haids.accounted hc hmemo hsound haccounted
          exact giveUpFrom_noted hc hmemo (fun ix hix => hsame.length ▸ hwaiting ix hix) hsound'
            haccounted' (ih.of_same hsame) hstep
        · cases hstep

theorem Proposed.goesThrough (hc : c.Built) (hmemo : memo.busy = [])
    {candidate : Recovery.Candidate} (h : Proposed c memo ix r candidate) :
    ∃ i, c.code.instructions[ix]? = some i ∧ i.GoesThrough r := by
  obtain ⟨count, u, hrun, -, before, rest, t, f, hsplit, hstuck, hparked, -⟩ := h
  have hsteps := run_unfinished_iff.1 hrun
  have hsound := hsteps.sound hc
  have hin : ∀ j ∈ before ++ ix :: rest, j < u.points.length :=
    fun j hj => (mem_waiting.1 (hsplit ▸ hj)).1
  have hix : ix < u.points.length := hin ix (by simp)
  -- what recovery does not help waits on
  have hsame := ((recoverFrom_inv (c := c) before (fun j hj => hin j (by simp [hj]))
    hsound.hints).2 t hstuck).2.2 ix
  refine ⟨_, (hsound.points ix hix).given, ?_⟩
  cases (hsteps.accounted hc hmemo ix hix).waits r f (hsame.symm.trans hparked) with
  | given _ hthrough => exact hthrough
  | doomed hthrough => exact hthrough

end Session

/-- What the notes of an analysis account for. -/
structure MethodAnalysis.NotesAccount (a : MethodAnalysis) (c : MethodContext)
    (memo memo' : Memo) : Prop where
  /-- No address has two notes. -/
  distinct : (a.notes.map (·.address)).Nodup
  /-- The notes of what has no type are those of the instructions that can only
      throw. -/
  unresolvable : ∀ address,
    (∃ n ∈ a.notes, n.address = address ∧ n.kind = .unresolvable) ↔
      ∃ ix p, a.points[ix]? = some p ∧ p.throwing.isSome ∧ c.graph.address ix = address
  /-- Any other note is about an analyzed access or read of an element, and tells a
      guess of the fallbacks that it was resolved with. -/
  recovered : ∀ n ∈ a.notes, n.kind ≠ .unresolvable → ∃ ix p candidate,
    a.points[ix]? = some p ∧ p.analyzed = true ∧
      n = ⟨c.graph.address ix, candidate.kind, n.register, some candidate.type, p.given.text⟩ ∧
      Session.Proposed c memo ix n.register candidate ∧
      c.Used memo' p n.register candidate.type
  /-- An access without a note was restored at a visit, for the class that the
      object register had before it. -/
  unnoted : ∀ ix p, a.points[ix]? = some p → p.given.opcode.odexForm.NeedsObject →
    p.current ≠ p.given → (∀ n ∈ a.notes, n.address ≠ c.graph.address ix) →
    ∃ count t, Session.run c count (Session.initial c memo) = (.unfinished, t) ∧
      t.queue.head? = some ix ∧ (t.point ix).current = p.given ∧
      c.Resolves memo' p.given (t.point ix).pre p.current

/-- The notes account for recovery: who was given up and who was helped has one
    note, and nobody else. -/
theorem notes_account_for_recovery {path : ClassPath} {cls : ClassDef} {m : MethodDef}
    {steps : MethodContext → Nat} {memo memo' : Memo} {a : MethodAnalysis} {c : MethodContext}
    (hmemo : memo.busy = [])
    (h : (path.analyzeWithin cls m steps).run memo = (some (.ok a), memo'))
    (hc : MethodContext.of path cls m = .ok c) : a.NotesAccount c memo memo' := by
  obtain ⟨c', s, hc', hbuilt, hfinished, rfl, rfl⟩ := ClassPath.analyzeWithin_ok h
  cases hc.symm.trans hc'
  obtain ⟨_, hsteps⟩ := hfinished.steps
  have hsound := hsteps.sound hbuilt
  have haccounted := hsteps.accounted hbuilt hmemo
  have hnoted := hsteps.noted hbuilt hmemo
  refine ⟨hnoted.distinct, fun address => ⟨?_, ?_⟩, fun n hn hkind => ?_, ?_⟩
  · rintro ⟨n, hn, rfl, hkind⟩
    obtain ⟨ix, hix, habout⟩ := hnoted.about n hn
    refine ⟨ix, _, Session.getElem?_points hix, ?_, habout.address.symm⟩
    cases habout with
    | unresolvable hthrowing => exact hthrowing ▸ rfl
    | recovered _ hproposed =>
      obtain ⟨_, _, -, -, _, _, _, _, -, -, -, hmem⟩ := hproposed
      exact absurd hkind (Recovery.candidates_kind hmem)
  · rintro ⟨ix, p, hp, hthrowing, rfl⟩
    obtain ⟨rfl, hix⟩ := Session.point_eq_of_getElem? hp
    obtain ⟨n, hn, haddress⟩ := (hsound.points ix hix).noted (.inr hthrowing)
    refine ⟨n, hn, haddress, ?_⟩
    obtain ⟨j, hj, habout⟩ := hnoted.about n hn
    obtain rfl : j = ix := hbuilt.address_injective (hsound.length ▸ hj) (hsound.length ▸ hix)
      (habout.address.symm.trans haddress)
    cases habout with
    | unresolvable => rfl
    | recovered hhint =>
      -- who was helped has no mark
      obtain ⟨-, -, hnone, -⟩ := (haccounted j hj).helped _ hhint
      rw [Session.status_point] at hnone
      rw [hnone] at hthrowing
      cases hthrowing
  · obtain ⟨ix, hix, habout⟩ := hnoted.about n hn
    cases habout with
    | unresolvable => exact absurd rfl hkind
    | @recovered r candidate hhint hproposed =>
      obtain ⟨hanalyzed, -, -, r', hused⟩ := (haccounted ix hix).helped _ hhint
      -- the register of the guess is the one it was used for
      obtain ⟨i, hi, hthrough⟩ := hproposed.goesThrough hbuilt hmemo
      cases hi.symm.trans (hsound.points ix hix).given
      cases hused.goesThrough.unique hthrough
      exact ⟨ix, _, candidate, Session.getElem?_points hix, hanalyzed, rfl, hproposed, hused⟩
  · intro ix p hp hform hrestored hnotes
    obtain ⟨rfl, hix⟩ := Session.point_eq_of_getElem? hp
    have hreached : (s.point ix).reached = true := by
      by_contra hunreached
      refine hrestored ?_
      have hfresh := (hsound.points ix hix).unreached (by simpa using hunreached)
      rw [Session.status_point] at hfresh
      rw [hfresh]
      rfl
    obtain ⟨count, t, hsteps', hqueue, hgiven, hresolves, -⟩ :=
      hfinished.restored hbuilt hmemo hix hreached hform hnotes
    exact ⟨count, t, Session.run_unfinished_iff.2 hsteps', hqueue, hgiven, hresolves⟩

namespace Sample

/-- Reads a field of its argument, then of a null that was compared with a class,
    then of another null. -/
def guesser : MethodDef :=
  { name := "guess", prototype := ⟨["LBox;"], "V"⟩, access := ⟨9⟩
    code := some
      { registers := 4
        instructions := [
          { opcode := .igetQuick, registers := [1, 3], reference := some (.fieldOffset 8) },
          { opcode := .const4, registers := [0], literal := some 0 },
          { opcode := .instanceOf, registers := [1, 0], reference := some (.type "LBox;") },
          { opcode := .igetQuick, registers := [1, 0], reference := some (.fieldOffset 8) },
          { opcode := .const4, registers := [2], literal := some 0 },
          { opcode := .igetQuick, registers := [1, 2], reference := some (.fieldOffset 8) },
          { opcode := .returnVoid }] } }

def guessing : ClassDef := classDef "LGuessing;" Descriptor.object [] [guesser]

end Sample

open Sample in
/-- The guesser's first read has no note, the second was helped and the third given
    up. -/
theorem guesser_accounted :
    ∃ c a memo', MethodContext.of (path [box, guessing] ⟨[]⟩) guessing guesser = .ok c ∧
      ((path [box, guessing] ⟨[]⟩).analyzeWithin guessing guesser fun _ => 20).run {} =
        (some (.ok a), memo') ∧
      a.notes.map (fun n => (n.address, n.kind, n.register, n.type)) =
        [(5, .instanceOf, 0, some "LBox;"), (8, .unresolvable, 2, none)] ∧
      a.points.map (·.throwing) = [none, none, none, none, none, some 2, none] ∧
      a.NotesAccount c {} memo' := by
  have hchecks : (path [box, guessing] ⟨[]⟩).checks guessing guesser 20 (fun _ a _ =>
      a.notes.map (fun n => (n.address, n.kind, n.register, n.type)) =
          [(5, .instanceOf, 0, some "LBox;"), (8, .unresolvable, 2, none)] ∧
        a.points.map (·.throwing) = [none, none, none, none, none, some 2, none]) = true := by
    decide +kernel
  obtain ⟨c, a, memo', hc, h, hfacts⟩ := ClassPath.checks_inv hchecks
  obtain ⟨hnotes, hthrowing⟩ := of_decide_eq_true hfacts
  exact ⟨c, a, memo', hc, h, hnotes, hthrowing, notes_account_for_recovery rfl h hc⟩

end SymbolicDex
