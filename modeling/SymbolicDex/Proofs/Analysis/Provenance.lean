import SymbolicDex.Proofs.Analysis.Completeness

/- Where the member of a restored access comes from. An access through an object
   register is restored at a visit, with the class that the register has before
   it then, and keeps that form when the register gets another class later.

   What is proved:
     1. `Site.restore_resolves`: what is restored without a recovered type names
        the member that the lookup gives for the class of the object register.
     2. `Provenance.visit`, `Provenance.aid`: a form once restored stays, and no
        other one comes up without a note.
     3. `analysis_restores_from_visit`: every access of a finished analysis that
        has no note was restored at a visit of the run, from the state before
        it at that visit.
     4. `caller_not_resolved_again`: which need not be the state that the
        analysis ends with. -/
namespace SymbolicDex

/-! ## Accesses that name their member -/

/-- The access through an object register and its symbolic form, for types of the
    registers: the form names the member that the lookup gives for the class of
    the object register, now and after any other questions. -/
inductive MethodContext.Resolves (c : MethodContext) (memo : Memo) (i : Instruction)
    (pre : List RegisterType) : Instruction → Prop where
  | field {offset register : Nat} {t : RegisterType} {object : Descriptor} {field : FieldRef}
      {opcode : Opcode} (hform : i.opcode.odexForm = .quickField)
      (hoffset : i.reference = some (.fieldOffset offset))
      (hregister : i.register? 1 = some register) (ht : pre[register]? = some t)
      (hnames : t.Names object)
      (hfield : ∀ m, memo.Grows m →
        ((c.path.resolveField c.cls.descriptor object offset).run.run m).1 = .ok field)
      (hopcode : i.opcode.plainAccess? field.type = some opcode) :
      Resolves c memo i pre ((i.withOpcode opcode).withReference (.field field))
  | call {index register : Nat} {t : RegisterType} {object : Descriptor} {method : MethodRef}
      (hform : i.opcode.odexForm = .quickCall)
      (hindex : i.reference = some (.vtableIndex index))
      (hregister : i.register? 0 = some register) (ht : pre[register]? = some t)
      (hnames : t.Names object)
      (hmethod : ∀ m, memo.Grows m →
        ((c.path.resolveMethod c.cls.descriptor object index false).run.run m).1 = .ok method) :
      Resolves c memo i pre ((i.withOpcode (if i.opcode.format.isRange then
        .invokeVirtualRange else .invokeVirtual)).withReference (.method method))

namespace MethodContext.Resolves

variable {c : MethodContext} {memo memo' : Memo} {i j : Instruction} {pre : List RegisterType}

theorem mono (h : c.Resolves memo i pre j) (hmemo : memo.Grows memo') :
    c.Resolves memo' i pre j := by
  cases h with
  | field hform hoffset hregister ht hnames hfield hopcode =>
    exact .field hform hoffset hregister ht hnames (fun m hm => hfield m (hmemo.trans hm)) hopcode
  | call hform hindex hregister ht hnames hmethod =>
    exact .call hform hindex hregister ht hnames fun m hm => hmethod m (hmemo.trans hm)

theorem plain (h : c.Resolves memo i pre j) :
    j.Plain ∧ (j.opcode.registerEffect = .field ∨ j.opcode.registerEffect = .keep) := by
  cases h with
  | field _ _ _ _ _ _ hopcode => exact (Opcode.plainAccess?_inv hopcode).2
  | call =>
    dsimp only [Instruction.Plain, Instruction.withOpcode, Instruction.withReference]
    split <;> decide

end MethodContext.Resolves

/-- What is restored names the member that the lookup gives for the class of the
    object, wherever the site takes the type of the object from. -/
theorem Site.restore_resolves_object {c : MethodContext} {s : Site} (hpath : s.path = c.path)
    (hcls : s.cls = c.cls) {i j : Instruction} {flag : Bool} {types : List RegisterType}
    (htypes : ∀ r t, i.objectRegister? = some r → s.objectIn r = some t → types[r]? = some t)
    (hform : i.opcode.odexForm.NeedsObject) {m : Memo} (hm : m.busy = [])
    (h : ((s.restore i).run.run m).1 = .ok (j, flag)) :
    c.Resolves ((s.restore i).run.run m).2 i types j := by
  rw [restore_eq] at h ⊢
  rcases hform with hform | hform
  · rw [hform] at h ⊢
    obtain ⟨j', hj, hpure, hend⟩ := Fallible.bind_ok h
    cases hpure
    rw [hend]
    obtain ⟨offset, register, t, object, field, opcode, hoffset, hregister, ht, hnames, hanswer,
      hopcode, rfl⟩ := s.restoreQuickField_ok hm hj
    have ht := htypes register t (by rw [Instruction.objectRegister?, hform]; exact hregister) ht
    rw [hpath, hcls] at hanswer
    exact .field hform hoffset hregister ht hnames
      (fun m hm => (hanswer.mono hm).run_eq (c.path.resolveField_steady _ _ _)) hopcode
  · rw [hform] at h ⊢
    obtain ⟨j', hj, hpure, hend⟩ := Fallible.bind_ok h
    cases hpure
    rw [hend]
    obtain ⟨index, register, t, object, method, hindex, hregister, ht, hnames, hanswer, rfl⟩ :=
      s.restoreQuickCall_ok hm hj
    have ht := htypes register t (by rw [Instruction.objectRegister?, hform]; exact hregister) ht
    rw [hpath, hcls] at hanswer
    exact .call hform hindex hregister ht hnames
      fun m hm => (hanswer.mono hm).run_eq (c.path.resolveMethod_steady _ _ _ _)

theorem Site.restore_resolves {c : MethodContext} {s : Site} (hpath : s.path = c.path)
    (hcls : s.cls = c.cls) (hhint : s.hint = none) {i j : Instruction} {flag : Bool}
    (hform : i.opcode.odexForm.NeedsObject) {m : Memo} (hm : m.busy = [])
    (h : ((s.restore i).run.run m).1 = .ok (j, flag)) :
    c.Resolves ((s.restore i).run.run m).2 i s.pre j := by
  refine Site.restore_resolves_object hpath hcls (fun r t _ ht => ?_) hform hm h
  unfold objectIn at ht
  rw [hhint] at ht
  exact ht

/-! ## How an access stands -/

namespace Session

/-- How the access through an object register at `ix` stands. -/
inductive Provenance (c : MethodContext) (memo : Memo) (ix : Nat) (st : Status) : Prop where
  | given (hgiven : st.point.current = st.point.given)
  /-- It was helped or given up. -/
  | noted (hnote : ∃ n ∈ st.notes, n.address = c.graph.address ix)
  /-- A candidate restored it to what fails for any types of the registers. -/
  | doomed (hparked : st.point.parked.isSome) (hplain : st.point.current.Plain)
      (hfails : ∀ s : Site, s.pre.length = (startOf c ix).length → ∀ m,
        ∃ f, ((s.apply st.point.current).run.run m).1 = .error (.failed f))
  /-- It was restored at a visit, and has the same state before it until it is
      visited again. -/
  | restored {count : Nat} {t : Session} (hsteps : Steps c (initial c memo) count t)
      (hqueue : t.queue.head? = some ix) (hgiven : (t.point ix).current = st.point.given)
      (hresolves : c.Resolves st.memo st.point.given (t.point ix).pre st.point.current)
      (hvisits : (t.point ix).visits < st.point.visits)
      (hpre : st.point.visits = (t.point ix).visits + 1 → ¬st.queued →
        (t.point ix).pre = st.point.pre)

namespace Provenance

variable {c : MethodContext} {memo : Memo} {ix : Nat}

theorem stable (c : MethodContext) (memo : Memo) :
    Stable c fun ix st => st.point.given.opcode.odexForm.NeedsObject → Provenance c memo ix st where
  grows := by
    intro ix st notes memo' h hnotes hmemo hform
    cases h hform with
    | given hgiven => exact .given hgiven
    | noted hnote =>
      obtain ⟨n, hn, haddress⟩ := hnote
      exact .noted ⟨n, hnotes.subset hn, haddress⟩
    | doomed hparked hplain hfails => exact .doomed hparked hplain hfails
    | restored hsteps hqueue hgiven hresolves hvisits hpre =>
      exact .restored hsteps hqueue hgiven (hresolves.mono hmemo) hvisits hpre
  refreshed := by
    intro ix st pre h _ hform
    cases h hform with
    | given hgiven => exact .given hgiven
    | noted hnote => exact .noted hnote
    | doomed hparked hplain hfails => exact .doomed hparked hplain hfails
    | restored hsteps hqueue hgiven hresolves hvisits _ =>
      exact .restored hsteps hqueue hgiven hresolves hvisits
        fun _ hqueued => absurd trivial hqueued

/-- What is doomed fails at every visit. -/
theorem transfer_doomed {s : Session} (hok : PointOk c ix (s.status ix)) {queue : List Nat}
    (hqueue : s.queue = ix :: queue) (hplain : (s.point ix).current.Plain)
    (hfails : ∀ t : Site, t.pre.length = (startOf c ix).length → ∀ m,
      ∃ f, ((t.apply (s.point ix).current).run.run m).1 = .error (.failed f)) :
    ∃ f, ((site c s.points ix (s.point ix)).transfer.run s.memo).1 =
      ⟨(s.point ix).current, .error (.failed f)⟩ := by
  have hreached := hok.queued (by rw [status_queued, hqueue]; exact List.mem_cons_self)
  obtain ⟨f, hf⟩ := hfails (site c s.points ix (s.point ix)) (hok.width hreached) s.memo
  refine ⟨f, ?_⟩
  rw [Site.transfer_plain _ hplain]
  exact congrArg _ hf

/-- A guess that does not help an access leaves it alone, or names a member whose
    type cannot be written. -/
theorem transfer_unhelped {s : Session} (hok : PointOk c ix (s.status ix))
    (hparked : (s.point ix).parked.isSome)
    (hneeds : (s.point ix).current.opcode.odexForm.NeedsObject) {t : RegisterType}
    {cur : Instruction} {e : Halt}
    (heffect : (({ site c s.points ix (s.point ix) with hint := some t }).transfer.run s.memo).1 =
      ⟨cur, .error e⟩) :
    cur = (s.point ix).current ∨ cur.Plain ∧
      ∀ t : Site, t.pre.length = (startOf c ix).length → ∀ m,
        ∃ f, ((t.apply cur).run.run m).1 = .error (.failed f) := by
  rcases Site.transfer_error _ heffect with
    ⟨hcur, -⟩ | ⟨hrestored, -, -, ⟨m', herror⟩, haccess, -⟩
  · exact .inl hcur
  · refine .inr ⟨hrestored, fun t hlen m => ?_⟩
    have hreached := hok.reached_of_visits (hok.visits_ne_zero (.inl hparked))
    obtain ⟨⟨f, rfl⟩, hfails⟩ := Site.apply_failed _ (haccess hneeds)
      (hlen.trans (hok.width hreached).symm) herror
    exact ⟨f, hfails m⟩

/-- A visit that leads to a state after the access: the form was there, or the
    visit is where it comes from. -/
theorem analyzed (hmemo : memo.busy = []) {count : Nat} {s : Session}
    (hsteps : Steps c (initial c memo) count s) (hsound : Sound c memo s)
    (hix : ix < s.points.length) (hform : (s.point ix).given.opcode.odexForm.NeedsObject)
    (h : Provenance c memo ix (s.status ix)) {queue : List Nat} {cur : Instruction}
    {post : List RegisterType} {narrowing : Option Narrowing} {memo' : Memo}
    (hqueue : s.queue = ix :: queue)
    (heffect : ((site c s.points ix (s.point ix)).transfer.run s.memo).1 = ⟨cur, .ok post⟩)
    (hmemo' : ((site c s.points ix (s.point ix)).transfer.run s.memo).2.Grows memo') :
    Provenance c memo ix ⟨{ s.point ix with
      visits := (s.point ix).visits + 1, current := cur, post := post, narrowing := narrowing,
      parked := none, analyzed := true }, ix ∈ queue, s.notes, memo'⟩ := by
  have hok := hsound.points ix hix
  have hidle := hsound.grown.idle hmemo
  have hgrows := ((site c s.points ix (s.point ix)).transfer_grows s.memo).trans hmemo'
  obtain ⟨-, hsame, hrestore, -⟩ := Site.transfer_ok _ heffect
  cases h with
  | given hgiven =>
    -- with a hint there is a note; without one the state before decides
    cases hhint : (s.point ix).hint with
    | some t => exact .noted (hok.noted (.inl (by rw [status_point, hhint]; rfl)))
    | none =>
      have hgiven : (s.point ix).current = (s.point ix).given := hgiven
      have hneeds : (s.point ix).current.opcode.odexForm.NeedsObject := hgiven ▸ hform
      have hresolves := Site.restore_resolves (c := c) rfl rfl hhint hneeds hidle (hrestore hneeds)
      refine .restored hsteps (by rw [hqueue]; rfl) hgiven ?_ (Nat.lt_succ_self _) fun _ _ => rfl
      have hresolved := hresolves.mono ((Site.restore_grows_transfer _ _).trans hmemo')
      rw [hgiven] at hresolved
      exact hresolved
  | noted hnote => exact .noted hnote
  | doomed hparked hplain hfails =>
    obtain ⟨f, hf⟩ := transfer_doomed hok hqueue hplain hfails
    cases hf.symm.trans heffect
  | @restored count' t hsteps' hqueue' hgiven hresolves hvisits _ =>
    have hcur : cur = (s.point ix).current := hsame hresolves.plain.1
    have hvisits : (t.point ix).visits < (s.point ix).visits := hvisits
    refine .restored hsteps' hqueue' hgiven ?_ (Nat.lt_succ_of_lt hvisits) fun heq _ => ?_
    · rw [hcur]
      exact hresolves.mono hgrows
    · exact absurd (Nat.succ.inj heq) (Nat.ne_of_gt hvisits)

theorem visit (hmemo : memo.busy = []) {count : Nat} {s s₁ : Session} {ts : List Nat}
    (hsteps : Steps c (initial c memo) count s) (hsound : Sound c memo s)
    (hix : ix < s.points.length) (hform : (s.point ix).given.opcode.odexForm.NeedsObject)
    (h : Provenance c memo ix (s.status ix)) (hvisit : Visit c ix s s₁ ts) :
    Provenance c memo ix (s₁.status ix) := by
  have hok := hsound.points ix hix
  cases hvisit with
  | passed hqueue hthrowing =>
    rw [status_set hix]
    exact .noted (hok.noted (.inr hthrowing))
  | analyzed hqueue hthrowing heffect hmemo' =>
    rw [status_set hix]
    exact analyzed hmemo hsteps hsound hix hform h hqueue heffect hmemo'
  | @parked queue cur r f hqueue hthrowing heffect =>
    rw [status_set hix]
    have herror := Site.transfer_error _ heffect
    cases h with
    | given hgiven =>
      have hgiven : (s.point ix).current = (s.point ix).given := hgiven
      have hneeds : (s.point ix).current.opcode.odexForm.NeedsObject := hgiven ▸ hform
      rcases herror with ⟨hcur, -⟩ | ⟨-, -, -, -, haccess, hreads⟩
      · exact .given (Eq.trans hcur hgiven)
      · obtain ⟨hfield, hkeep, -⟩ := (hreads r f rfl).1.effect
        exact ((haccess hneeds).elim hfield hkeep).elim
    | noted hnote => exact .noted hnote
    | doomed hparked hplain hfails =>
      obtain ⟨f', hf⟩ := transfer_doomed hok hqueue hplain hfails
      cases hf.symm.trans heffect
    | restored hsteps' hqueue' hgiven hresolves hvisits _ =>
      -- what was restored does not wait
      rcases herror with ⟨-, hneeds⟩ | ⟨-, hsame, -, -, -, hreads⟩
      · exact absurd (hneeds r f rfl) hresolves.plain.1.not_needsObject
      · have hcur : cur = (s.point ix).current := hsame hresolves.plain.1
        obtain ⟨hfield, hkeep, -⟩ := (hreads r f rfl).1.effect
        rw [hcur] at hfield hkeep
        exact (hresolves.plain.2.elim hfield hkeep).elim

theorem aid {s s₁ : Session} {ts : List Nat} (hsound : Sound c memo s)
    (hix : ix < s.points.length) (hform : (s.point ix).given.opcode.odexForm.NeedsObject)
    (h : Provenance c memo ix (s.status ix)) (haid : Aid c ix s s₁ ts) :
    Provenance c memo ix (s₁.status ix) := by
  have hok := hsound.points ix hix
  cases haid with
  | tried =>
    rw [status_set hix]
    cases h with
    | given hgiven => exact .given hgiven
    | noted hnote => exact .noted hnote
    | doomed hparked hplain hfails => exact .doomed hparked hplain hfails
    | restored hsteps hqueue hgiven hresolves hvisits hpre =>
      exact .restored hsteps hqueue hgiven hresolves hvisits hpre
  | @unhelped t cur e hparked hhint heffect =>
    rw [status_set hix]
    have hgrows :=
      Site.transfer_grows { site c s.points ix (s.point ix) with hint := some t } s.memo
    have hplain (hcurrent : (s.point ix).current.Plain) : cur = (s.point ix).current := by
      rcases Site.transfer_error _ heffect with ⟨hcur, -⟩ | ⟨-, hsame, -⟩
      · exact hcur
      · exact hsame hcurrent
    cases h with
    | given hgiven =>
      have hgiven : (s.point ix).current = (s.point ix).given := hgiven
      have hneeds : (s.point ix).current.opcode.odexForm.NeedsObject := hgiven ▸ hform
      rcases transfer_unhelped hok hparked hneeds heffect with hcur | ⟨hrestored, hfails⟩
      · exact .given (Eq.trans hcur hgiven)
      · exact .doomed hparked hrestored hfails
    | noted hnote => exact .noted hnote
    | doomed hparked hcurrent hfails =>
      rw [hplain hcurrent]
      exact .doomed hparked hcurrent hfails
    | restored hsteps hqueue hgiven hresolves hvisits hpre =>
      rw [hplain hresolves.plain.1]
      exact .restored hsteps hqueue hgiven (hresolves.mono hgrows) hvisits hpre
  | @helped t cur post narrowing memo' note hparked hhint htried heffect hmemo' hnote =>
    rw [status_set hix]
    exact .noted ⟨note, List.mem_append_right _ List.mem_cons_self, hnote⟩
  | @gaveUp r note hparked hnote =>
    rw [status_set hix]
    exact .noted ⟨note, List.mem_append_right _ List.mem_cons_self, hnote⟩

end Provenance

theorem Steps.provenance {c : MethodContext} (hc : c.Built) {memo : Memo} (hmemo : memo.busy = [])
    {count : Nat} {s : Session} (h : Steps c (Session.initial c memo) count s) :
    Everywhere (fun ix st => st.point.given.opcode.odexForm.NeedsObject →
      Provenance c memo ix st) s := by
  refine h.everywhere hc (Provenance.stable c memo) (fun _ _ _ _ => .given rfl) ?_ ?_
  · intro count s s₁ ix ts hsteps hsound hix hprovenance hvisit hform
    have hgiven : (s₁.point ix).given = (s.point ix).given := by
      cases hvisit <;> rw [point_set_self (s := s) rfl hix]
    rw [status_point, hgiven] at hform
    exact (hprovenance hform).visit hmemo hsteps hsound hix hform hvisit
  · intro s s₁ ix ts hsound hix hprovenance haid hform
    have hgiven : (s₁.point ix).given = (s.point ix).given := by
      cases haid <;> rw [point_set_self (s := s) rfl hix]
    rw [status_point, hgiven] at hform
    exact (hprovenance hform).aid hsound hix hform haid

theorem Finished.restored {c : MethodContext} (hc : c.Built) {memo : Memo} (hmemo : memo.busy = [])
    {s : Session} (h : Finished c memo s) {ix : Nat} (hix : ix < s.points.length)
    (hreached : (s.point ix).reached = true)
    (hform : (s.point ix).given.opcode.odexForm.NeedsObject)
    (hnotes : ∀ n ∈ s.notes, n.address ≠ c.graph.address ix) :
    ∃ count t, Steps c (Session.initial c memo) count t ∧ t.queue.head? = some ix ∧
      (t.point ix).current = (s.point ix).given ∧
      c.Resolves s.memo (s.point ix).given (t.point ix).pre (s.point ix).current ∧
      (t.point ix).visits < (s.point ix).visits ∧
      ((s.point ix).visits = (t.point ix).visits + 1 → (t.point ix).pre = (s.point ix).pre) := by
  obtain ⟨count, hsteps⟩ := h.steps
  have hok := (hsteps.sound hc).points ix hix
  have hnot : ¬∃ n ∈ s.notes, n.address = c.graph.address ix := by
    rintro ⟨n, hn, haddress⟩
    exact hnotes n hn haddress
  have hplain : (s.point ix).current.Plain := by
    rcases h.settled hc hix hreached with ⟨-, -, hplain⟩ | hthrowing
    · exact hplain
    · exact absurd (hok.noted (.inr hthrowing)) hnot
  cases hsteps.provenance hc hmemo ix hix hform with
  | given hgiven =>
    have hgiven : (s.point ix).current = (s.point ix).given := hgiven
    exact absurd (hgiven ▸ hform) hplain.not_needsObject
  | noted hnote => exact absurd hnote hnot
  | doomed hparked =>
    rw [status_point, h.parked ix hix] at hparked
    cases hparked
  | @restored count t hsteps hqueue hgiven hresolves hvisits hpre =>
    refine ⟨count, t, hsteps, hqueue, hgiven, hresolves, hvisits, fun heq => hpre heq ?_⟩
    rw [status_queued, h.queue]
    exact List.not_mem_nil

end Session

/-- Every access through an object register that was reached and has no note was
    restored at a visit of the run: its member is what the lookup gives for the
    class that the object register had before that visit. Unless it was visited
    again, that is the class the analysis ends with. -/
theorem analysis_restores_from_visit {path : ClassPath} {cls : ClassDef} {m : MethodDef}
    {steps : MethodContext → Nat} {memo memo' : Memo} {a : MethodAnalysis} {c : MethodContext}
    (hmemo : memo.busy = [])
    (h : (path.analyzeWithin cls m steps).run memo = (some (.ok a), memo'))
    (hc : MethodContext.of path cls m = .ok c) {ix : Nat} {p : Point}
    (hp : a.points[ix]? = some p) (hreached : p.reached = true)
    (hform : p.given.opcode.odexForm.NeedsObject)
    (hnotes : ∀ n ∈ a.notes, n.address ≠ c.graph.address ix) :
    ∃ count t, Session.run c count (Session.initial c memo) = (.unfinished, t) ∧
      t.queue.head? = some ix ∧ (t.point ix).current = p.given ∧
      c.Resolves memo' p.given (t.point ix).pre p.current ∧
      (t.point ix).visits < p.visits ∧
      (p.visits = (t.point ix).visits + 1 → (t.point ix).pre = p.pre) := by
  obtain ⟨c', s, hc', hbuilt, hfinished, rfl, rfl⟩ := ClassPath.analyzeWithin_ok h
  cases hc.symm.trans hc'
  obtain ⟨rfl, hix⟩ := Session.point_eq_of_getElem? hp
  obtain ⟨count, t, hsteps, hrest⟩ :=
    hfinished.restored hbuilt hmemo hix hreached hform hnotes
  exact ⟨count, t, Session.run_unfinished_iff.2 hsteps, hrest⟩

open Sample in
/-- The field that the reader reads first is that of the class it ends with. -/
theorem reader_resolved :
    ∃ c a memo' p, MethodContext.of (path [box, reading] ⟨[]⟩) reading reader = .ok c ∧
      ((path [box, reading] ⟨[]⟩).analyzeWithin reading reader fun _ => 20).run {} =
        (some (.ok a), memo') ∧
      a.points[0]? = some p ∧ p.reached = true ∧ p.given.opcode.odexForm.NeedsObject ∧
      (∀ n ∈ a.notes, n.address ≠ c.graph.address 0) ∧
      c.Resolves memo' p.given p.pre p.current := by
  have hchecks : (path [box, reading] ⟨[]⟩).checks reading reader 20 (fun c a _ =>
      (∀ n ∈ a.notes, n.address ≠ c.graph.address 0) ∧
        (a.points[0]?).any fun p =>
          p.reached = true ∧ p.given.opcode.odexForm.NeedsObject ∧ p.visits = 1) = true := by
    decide +kernel
  obtain ⟨c, a, memo', hc, h, hfacts⟩ := ClassPath.checks_inv hchecks
  obtain ⟨hnotes, hpoint⟩ := of_decide_eq_true hfacts
  obtain ⟨p, hp, hfacts⟩ := (Option.any_eq_true _ _).1 hpoint
  obtain ⟨hreached, hform, hvisits⟩ := of_decide_eq_true hfacts
  obtain ⟨count, t, -, -, -, hresolves, hlt, hpre⟩ :=
    analysis_restores_from_visit rfl h hc hp hreached hform hnotes
  rw [hpre (by omega)] at hresolves
  exact ⟨c, a, memo', p, hc, h, hp, hreached, hform, hnotes, hresolves⟩

/-! ## A receiver that is widened later -/

namespace Sample

/-- Calls the same method of its two arguments, in a loop. -/
def caller : MethodDef :=
  { name := "draw", prototype := ⟨["LCircle;", "LSquare;"], "V"⟩, access := ⟨9⟩
    code := some
      { registers := 3
        instructions := [
          { opcode := .moveObject, registers := [0, 1] },
          { opcode := .invokeVirtualQuick, registers := [0], reference := some (.vtableIndex 0) },
          { opcode := .moveObject, registers := [0, 2] },
          { opcode := .goto, target := some (-4) }] } }

def draw : MethodDef := { name := "draw", prototype := ⟨[], "V"⟩, access := ⟨1⟩ }

def shape : ClassDef := classDef "LShape;" Descriptor.object [] [draw]

def circle : ClassDef := classDef "LCircle;" "LShape;" [] [draw]

def square : ClassDef := classDef "LSquare;" "LShape;" [] []

def calling : ClassDef := classDef "LCalling;" Descriptor.object [] [caller]

def shapes : ClassPath := path [shape, circle, square, calling] ⟨[]⟩

end Sample

open Sample in
/-- The call is restored for a circle, and the analysis ends with a shape. -/
theorem caller_not_resolved_again :
    ∃ c a memo' p, MethodContext.of shapes calling caller = .ok c ∧
      (shapes.analyzeWithin calling caller fun _ => 20).run {} = (some (.ok a), memo') ∧
      a.points[1]? = some p ∧ p.reached = true ∧ p.throwing = none ∧
      p.given.opcode.odexForm = .quickCall ∧ a.notes = [] ∧
      p.current.reference = some (.method ⟨"LCircle;", "draw", ⟨[], "V"⟩⟩) ∧
      p.pre[0]? = some (RegisterType.reference "LShape;") ∧
      ¬c.Resolves memo' p.given p.pre p.current := by
  have hchecks : shapes.checks calling caller 20 (fun c a memo => a.notes = [] ∧
      (a.points[1]?).any fun p => p.reached = true ∧ p.throwing = none ∧
        p.given.opcode.odexForm = .quickCall ∧ p.given.reference = some (.vtableIndex 0) ∧
        p.given.register? 0 = some 0 ∧
        p.current.reference = some (.method ⟨"LCircle;", "draw", ⟨[], "V"⟩⟩) ∧
        p.pre[0]? = some (RegisterType.reference "LShape;") ∧
        ((c.path.resolveMethod c.cls.descriptor "LShape;" 0 false).run.run memo).1.toOption =
          some ⟨"LShape;", "draw", ⟨[], "V"⟩⟩) = true := by
    decide +kernel
  obtain ⟨c, a, memo', hc, h, hfacts⟩ := ClassPath.checks_inv hchecks
  obtain ⟨hnotes, hpoint⟩ := of_decide_eq_true hfacts
  obtain ⟨p, hp, hfacts⟩ := (Option.any_eq_true _ _).1 hpoint
  obtain ⟨hreached, hthrowing, hform, hreference, hoperand, hcurrent, hpre, hlookup⟩ :=
    of_decide_eq_true hfacts
  refine ⟨c, a, memo', p, hc, h, hp, hreached, hthrowing, hform, hnotes, hcurrent, hpre, ?_⟩
  -- for a shape the lookup gives the method of the shape
  generalize hj : p.current = j at hcurrent
  intro hresolves
  cases hresolves with
  | field hfield => cases hfield.symm.trans hform
  | call _ hindex hregister ht hnames hmethod =>
    cases hindex.symm.trans hreference
    cases hregister.symm.trans hoperand
    cases ht.symm.trans hpre
    cases hnames.2.1
    rw [hmethod _ (Memo.Grows.refl _)] at hlookup
    cases hlookup
    simp [Instruction.withReference] at hcurrent

end SymbolicDex
