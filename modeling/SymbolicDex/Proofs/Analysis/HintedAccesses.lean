import SymbolicDex.Proofs.Analysis.Provenance
import SymbolicDex.Proofs.Analysis.RestoredCode

/- Instructions that a guess helps. Who waits has its given form, or was restored
   by a guess to what fails for any types of the registers; so a guess that leads
   on is one that the given form was resolved with. It stays with the instruction,
   which never waits again.

   What is proved:
     1. `Site.transfer_waits`: what waits was left alone, and waits for the register
        that it goes through.
     2. `Accounted.visit`, `Accounted.aid`: how an instruction stands that waits or
        has a guess, kept by every move.
     3. `Steps.accounted`: so it holds at every step. -/
namespace SymbolicDex

/-- It goes through an object or an array in the register. -/
def Instruction.GoesThrough (i : Instruction) (r : Nat) : Prop :=
  i.objectRegister? = some r ∨ i.ReadsElement ∧ i.register? 1 = some r

theorem Instruction.GoesThrough.unique {i : Instruction} {r r' : Nat} (h : i.GoesThrough r)
    (h' : i.GoesThrough r') : r = r' := by
  have hapart {k : Nat} (hobject : i.objectRegister? = some k) : ¬i.ReadsElement := fun hreads =>
    hreads.plain.not_needsObject (needsObject_of_objectRegister? hobject)
  rcases h with hobject | ⟨hreads, harray⟩
  · rcases h' with hobject' | ⟨hreads', -⟩
    · exact Option.some.inj (hobject.symm.trans hobject')
    · exact absurd hreads' (hapart hobject)
  · rcases h' with hobject' | ⟨-, harray'⟩
    · exact absurd hreads (hapart hobject')
    · exact Option.some.inj (harray.symm.trans harray')

/-- What a read of an element leaves behind, if the array is of the type. -/
inductive ClassPath.ElementOf (path : ClassPath) : Opcode → Descriptor → RegisterType → Prop where
  | long : ElementOf path .agetWide "[J" (RegisterType.ofCategory .longLo)
  | double : ElementOf path .agetWide "[D" (RegisterType.ofCategory .doubleLo)
  | object {array element : Descriptor} (helement : path.elementType? array = some element)
    (hreference : element.isReference = true) :
    ElementOf path .agetObject array (RegisterType.ofDescriptor element)

/-! ## One analysis of an instruction -/

namespace Site

open Rule

variable (s : Site)

theorem write_leaves {r : Nat} {t : RegisterType} :
    Ensures (s.write r t) (fun post => post[r]? = some t) (Waits fun _ _ => False) := by
  refine Ensures.ite (fun _ => Ensures.fail (waits_failed _)) fun hr => ?_
  have hset : (s.pre.set r t)[r]? = some t := List.getElem?_set_self (Nat.lt_of_not_le hr)
  split
  · exact Ensures.pure hset
  · refine Ensures.ite (fun _ => Ensures.fail (waits_failed _)) fun _ => Ensures.pure ?_
    rwa [List.getElem?_set_ne (Nat.succ_ne_self r)]

/-- With a guess for the array, a read of an element leaves the element of the
    guess, and waits only if there is none. -/
theorem apply_hinted {i : Instruction} {d : Descriptor}
    (hhint : s.hint = some (RegisterType.reference d)) (hreads : i.ReadsElement) :
    Ensures (s.apply i)
      (fun post => ∃ dest v, i.register? 0 = some dest ∧ s.path.ElementOf i.opcode d v ∧
        post[dest]? = some v)
      (Waits fun _ _ => ∀ v, ¬s.path.ElementOf i.opcode d v) := by
  have hobject (r : Nat) : s.objectType r = pure (RegisterType.reference d) := by
    unfold objectType
    rw [hhint]
  have hwrite {dest : Nat} (hdest : i.register? 0 = some dest) (v : RegisterType)
      (hv : s.path.ElementOf i.opcode d v) : Ensures (s.write dest v)
        (fun post => ∃ dest v, i.register? 0 = some dest ∧ s.path.ElementOf i.opcode d v ∧
          post[dest]? = some v)
        (Waits fun _ _ => ∀ v, ¬s.path.ElementOf i.opcode d v) :=
    s.write_leaves.mono (fun post hpost => ⟨dest, v, hdest, hv, hpost⟩)
      fun h hwaits r f hparked => (hwaits r f hparked).elim
  unfold apply
  rcases hreads with hopcode | hopcode
  · rw [hopcode] at hwrite ⊢
    refine Ensures.bind need_ensures fun dest hdest => Ensures.bind need_ensures fun r _ => ?_
    rw [hobject, pure_bind]
    refine Ensures.bind (P := fun v => s.path.ElementOf .agetWide d v) ?_ (hwrite hdest)
    unfold wideElement
    refine Ensures.ite (fun hd => Ensures.pure (hd ▸ .long)) fun hlong => ?_
    refine Ensures.ite (fun hd => Ensures.pure (hd ▸ .double)) fun hdouble => ?_
    refine Ensures.throw (waits_parked fun v hv => ?_)
    cases hv with
    | long => exact hlong rfl
    | double => exact hdouble rfl
  · rw [hopcode] at hwrite ⊢
    refine Ensures.bind need_ensures fun dest hdest => Ensures.bind need_ensures fun r _ => ?_
    rw [hobject, pure_bind]
    refine Ensures.bind (P := fun v => s.path.ElementOf .agetObject d v) ?_ (hwrite hdest)
    unfold objectElement
    dsimp only [RegisterType.reference]
    split
    · rename_i element helement
      refine Ensures.ite (fun hreference => Ensures.pure (.object helement hreference))
        fun hreference => Ensures.throw (waits_parked fun v hv => ?_)
      cases hv with
      | object helement' hreference' =>
        cases helement.symm.trans helement'
        exact hreference hreference'
    · rename_i hnone
      refine Ensures.throw (waits_parked fun v hv => ?_)
      cases hv with
      | object helement => cases hnone.symm.trans helement

/-- A read of an element waits for its array. -/
theorem apply_waits {i : Instruction} {m : Memo} {r : Nat} {f : Option AnalysisFailure}
    (h : ((s.apply i).run.run m).1 = .error (.parked r f)) : i.GoesThrough r := by
  have hreads := ((s.apply_ensures i m).2 _ h r f rfl).1
  have harray : Ensures (s.apply i) (fun _ => True) (Waits fun r _ => i.register? 1 = some r) := by
    unfold apply
    rcases hreads with hopcode | hopcode <;> rw [hopcode]
    · refine Ensures.bind need_ensures fun _ _ => Ensures.bind need_ensures fun r hr => ?_
      rw [objectType_eq]
      refine Ensures.bind need_ensures fun _ _ => ?_
      exact Ensures.bind (wideElement_ensures fun _ => hr) fun _ _ => s.write_ensures
    · refine Ensures.bind need_ensures fun _ _ => Ensures.bind need_ensures fun r hr => ?_
      rw [objectType_eq]
      refine Ensures.bind need_ensures fun _ _ => ?_
      exact Ensures.bind (objectElement_ensures fun _ => hr) fun _ _ => s.write_ensures
  exact .inr ⟨hreads, (harray m).2 _ h r f rfl⟩

theorem restoreVolatile_accesses {i : Instruction} :
    Ensures (restoreVolatile i)
      (fun j => j.opcode.registerEffect = .field ∨ j.opcode.registerEffect = .keep)
      (fun _ => True) := by
  refine Ensures.bind (Ensures.need (fun _ h => h) trivial) fun field _ => ?_
  refine Ensures.bind (Ensures.need (fun _ h => h) trivial) fun opcode h => ?_
  exact Ensures.pure (Opcode.plainAccess?_inv h).2.2

/-- Nothing is restored to a read of an element. -/
theorem restore_reads {i j : Instruction} {flag : Bool} {m : Memo}
    (h : ((s.restore i).run.run m).1 = .ok (j, flag)) (hreads : j.ReadsElement) : i.Plain := by
  have hr := (s.restore_ensures i m).1 _ h
  have hsize : i.codeUnits = 2 := by
    rw [← hr.retains.size, Instruction.codeUnits]
    rcases hreads with hopcode | hopcode <;> rw [hopcode] <;> rfl
  obtain ⟨hfield, hkeep, -⟩ := hreads.effect
  -- calls and returns have another size than a read of an element
  have hnot {n : Nat} (hunits : i.opcode.format.codeUnits = some n) (hn : n ≠ 2) : False := by
    rw [Instruction.codeUnits, hunits] at hsize
    exact hn hsize
  have hcall (hform : i.opcode.odexForm ∈ [.quickCall, .superCall, .inlineCall,
      .emptyConstructor, .objectConstructor]) : False :=
    hnot (Opcode.call_codeUnits hform) (by decide)
  unfold Instruction.Plain
  cases hform : i.opcode.odexForm with
  | plain => rfl
  | barrier => exact (hnot (Opcode.barrier_codeUnits hform) (by decide)).elim
  | quickField => exact ((hr.accessed (.inl hform)).elim hfield hkeep).elim
  | volatileField =>
    rw [restore_eq, hform] at h
    obtain ⟨j', hj, hpure, -⟩ := Fallible.bind_ok h
    cases hpure
    exact (((restoreVolatile_accesses m).1 _ hj).elim hfield hkeep).elim
  | _ => exact (hcall (by rw [hform]; decide)).elim

/-- An analysis leaves the instruction alone, or restores it to what is no read of
    an element. -/
theorem transfer_form {m : Memo} {i : Instruction} {post : Except Halt (List RegisterType)}
    (h : (s.transfer.run m).1 = ⟨i, post⟩) :
    i = s.current ∨ i.Plain ∧ ¬i.ReadsElement := by
  have hrestored {j : Instruction} {flag : Bool}
      (hj : ((s.restore s.current).run.run m).1 = .ok (j, flag)) :
      j = s.current ∨ j.Plain ∧ ¬j.ReadsElement := by
    by_cases hplain : s.current.Plain
    · rw [s.restore_plain hplain] at hj
      cases hj
      exact .inl rfl
    · exact .inr ⟨((s.restore_ensures s.current m).1 _ hj).plain, fun hreads =>
        hplain (s.restore_reads hj hreads)⟩
  rcases s.transfer_cases m with ⟨e, -, he⟩ | ⟨j, hj, he⟩ | ⟨j, hj, he, -⟩
  · cases he.symm.trans h
    exact .inl rfl
  · cases he.symm.trans h
    exact hrestored hj
  · cases he.symm.trans h
    exact hrestored hj

theorem transfer_waits {m : Memo} {i : Instruction} {r : Nat} {f : Option AnalysisFailure}
    (h : (s.transfer.run m).1 = ⟨i, .error (.parked r f)⟩) :
    i = s.current ∧ s.current.GoesThrough r := by
  rcases s.transfer_cases m with ⟨e, hrestore, he⟩ | ⟨j, -, he⟩ | ⟨j, -, he, -⟩
  · cases he.symm.trans h
    exact ⟨rfl, .inl ((s.restore_ensures s.current m).2 _ hrestore r f rfl)⟩
  · cases he.symm.trans h
  · have hform := s.transfer_form h
    rw [he] at h
    injection h with hi h
    subst hi
    have hreads := ((s.apply_ensures j _).2 _ h r f rfl).1
    obtain rfl : j = s.current := hform.resolve_right fun hrestored => hrestored.2 hreads
    exact ⟨rfl, s.apply_waits h⟩

end Site

/-! ## How an instruction stands -/

/-- What a type guessed for the register did for an instruction: it named the class
    of the object, or the array whose element was read. -/
inductive MethodContext.Used (c : MethodContext) (memo : Memo) (p : Point) (r : Nat)
    (d : Descriptor) : Prop where
  | access (hobject : p.given.objectRegister? = some r)
    (hresolves : ∀ types : List RegisterType, types[r]? = some (RegisterType.reference d) →
      c.Resolves memo p.given types p.current)
  | element {dest : Nat} {v : RegisterType} (hreads : p.given.ReadsElement)
    (harray : p.given.register? 1 = some r) (hcurrent : p.current = p.given)
    (hdest : p.given.register? 0 = some dest) (hv : c.path.ElementOf p.given.opcode d v)
    (hpost : p.post[dest]? = some v)

namespace MethodContext.Used

variable {c : MethodContext} {memo memo' : Memo} {p : Point} {r : Nat} {d : Descriptor}

theorem mono (h : c.Used memo p r d) (hmemo : memo.Grows memo') : c.Used memo' p r d := by
  cases h with
  | access hobject hresolves =>
    exact .access hobject fun types htypes => (hresolves types htypes).mono hmemo
  | element hreads harray hcurrent hdest hv hpost =>
    exact .element hreads harray hcurrent hdest hv hpost

theorem congr {p' : Point} (h : c.Used memo p r d) (hgiven : p'.given = p.given)
    (hcurrent : p'.current = p.current) (hpost : p'.post = p.post) : c.Used memo p' r d := by
  cases h with
  | access hobject hresolves =>
    rw [← hgiven] at hobject
    exact .access hobject (by rw [hgiven, hcurrent]; exact hresolves)
  | element hreads harray hsame hdest hv hset =>
    rw [← hgiven] at hreads harray hsame hdest hv
    exact .element hreads harray (hcurrent.trans hsame) hdest hv (hpost ▸ hset)

theorem goesThrough (h : c.Used memo p r d) : p.given.GoesThrough r := by
  cases h with
  | access hobject => exact .inl hobject
  | element hreads harray => exact .inr ⟨hreads, harray⟩

end MethodContext.Used

namespace Session

/-- An instruction that waits for the register `r`: in its given form, or restored
    to what fails for any types of the registers. -/
inductive Waiting (c : MethodContext) (ix : Nat) (p : Point) (r : Nat) : Prop where
  | given (hcurrent : p.current = p.given) (hthrough : p.given.GoesThrough r)
  | doomed (hthrough : p.given.GoesThrough r) (hplain : p.current.Plain)
    (hfails : ∀ s : Site, s.pre.length = (startOf c ix).length → ∀ m,
      ∃ f, ((s.apply p.current).run.run m).1 = .error (.failed f))

theorem Waiting.congr {c : MethodContext} {ix : Nat} {p p' : Point} {r : Nat}
    (h : Waiting c ix p r) (hgiven : p'.given = p.given) (hcurrent : p'.current = p.current) :
    Waiting c ix p' r := by
  cases h with
  | given hsame hthrough =>
    exact .given ((hcurrent.trans hsame).trans hgiven.symm) (hgiven ▸ hthrough)
  | doomed hthrough hplain hfails =>
    rw [← hcurrent] at hplain hfails
    exact .doomed (hgiven ▸ hthrough) hplain hfails

/-- How the instruction `ix` stands, if it waits or has a guess. -/
structure Accounted (c : MethodContext) (ix : Nat) (st : Status) : Prop where
  form : st.point.current = st.point.given ∨
    st.point.current.Plain ∧ ¬st.point.current.ReadsElement
  waits : ∀ r f, st.point.parked = some ⟨r, f⟩ → Waiting c ix st.point r
  helped : ∀ d, st.point.hint = some (RegisterType.reference d) →
    st.point.analyzed = true ∧ st.point.parked = none ∧ st.point.throwing = none ∧
      ∃ r, c.Used st.memo st.point r d

namespace Accounted

variable {c : MethodContext} {memo : Memo} {s s₁ : Session} {ix : Nat} {ts : List Nat}

theorem stable (c : MethodContext) : Stable c (Accounted c) where
  grows h _ hmemo :=
    { form := h.form
      waits := h.waits
      helped := fun d hd =>
        have ⟨hanalyzed, hparked, hthrowing, r, hused⟩ := h.helped d hd
        ⟨hanalyzed, hparked, hthrowing, r, hused.mono hmemo⟩ }
  refreshed := by
    intro ix st pre h _
    refine ⟨h.form, fun r f hparked => (h.waits r f hparked).congr rfl rfl, fun d hd => ?_⟩
    obtain ⟨hanalyzed, hparked, hthrowing, r, hused⟩ := h.helped d hd
    exact ⟨hanalyzed, hparked, hthrowing, r, hused.congr rfl rfl rfl⟩

/-- What still needs its object, or reads an element, is as given. -/
theorem given_of_goesThrough {st : Status} (h : Accounted c ix st) {r : Nat}
    (hthrough : st.point.current.GoesThrough r) : st.point.current = st.point.given := by
  refine h.form.resolve_right fun ⟨hplain, hreads⟩ => ?_
  rcases hthrough with hobject | ⟨hreads', -⟩
  · exact hplain.not_needsObject (Instruction.needsObject_of_objectRegister? hobject)
  · exact hreads hreads'

theorem form_transfer {p : Point} {site : Site} (hcurrent : site.current = p.current)
    (h : p.current = p.given ∨ p.current.Plain ∧ ¬p.current.ReadsElement) {m : Memo}
    {cur : Instruction} {post : Except Halt (List RegisterType)}
    (heffect : (site.transfer.run m).1 = ⟨cur, post⟩) :
    cur = p.given ∨ cur.Plain ∧ ¬cur.ReadsElement := by
  rcases site.transfer_form heffect with hsame | hrestored
  · rw [hsame, hcurrent]
    exact h
  · exact .inr hrestored

/-- What a guess was used for stays at a visit, and the visit leads on. -/
theorem used_transfer {st : Status} {site : Site} {r : Nat} {d : Descriptor}
    (hused : c.Used st.memo st.point r d) (hcurrent : site.current = st.point.current)
    (hpath : site.path = c.path) (hhint : site.hint = some (RegisterType.reference d)) {m : Memo}
    {cur : Instruction} {post : Except Halt (List RegisterType)}
    (heffect : (site.transfer.run m).1 = ⟨cur, post⟩) :
    cur = st.point.current ∧ (∀ r f, post ≠ .error (.parked r f)) ∧
      ∀ regs, post = .ok regs →
        c.Used st.memo { st.point with current := cur, post := regs } r d := by
  cases hused with
  | access hobject hresolves =>
    -- the form that it was restored to neither waits nor changes
    have hresolved := hresolves (List.replicate (r + 1) (RegisterType.reference d)) (by simp)
    have hplain : site.current.Plain := hcurrent ▸ hresolved.plain.1
    rw [site.transfer_plain hplain] at heffect
    injection heffect with hcur hpost
    rw [hcurrent] at hcur
    refine ⟨hcur.symm, fun r' f hparked => ?_, fun regs _ => .access hobject ?_⟩
    · have hreads := ((site.apply_ensures _ m).2 _ (hpost.trans hparked) r' f rfl).1
      rw [hcurrent] at hreads
      exact hresolved.plain.2.elim hreads.effect.1 hreads.effect.2.1
    · rw [← hcur]
      exact hresolves
  | element hreads harray hsame hdest hv hpost =>
    have hgiven : site.current = st.point.given := hcurrent.trans hsame
    have hplain : site.current.Plain := by rw [hgiven]; exact hreads.plain
    rw [site.transfer_plain hplain] at heffect
    injection heffect with hcur hpost'
    rw [hgiven] at hcur hpost'
    have helement := site.apply_hinted hhint hreads m
    rw [hpath, hpost'] at helement
    refine ⟨hcur.symm.trans hsame.symm, fun r' f hparked => ?_, fun regs hregs => ?_⟩
    · exact helement.2 _ hparked r' f rfl _ hv
    · obtain ⟨dest', v', hdest', hv', hpost''⟩ := helement.1 regs hregs
      exact .element hreads harray hcur.symm hdest' hv' hpost''

theorem visit (hix : ix < s.points.length) (h : Accounted c ix (s.status ix))
    (hvisit : Visit c ix s s₁ ts) : Accounted c ix (s₁.status ix) := by
  cases hvisit with
  | passed hqueue hthrowing =>
    rw [status_set hix]
    refine ⟨h.form, fun r f hparked => (h.waits r f hparked).congr rfl rfl, fun d hd => ?_⟩
    have hnone : (s.point ix).throwing = none := (h.helped d hd).2.2.1
    rw [hnone] at hthrowing
    cases hthrowing
  | @analyzed queue cur post narrowing memo hqueue hthrowing heffect hmemo =>
    rw [status_set hix]
    refine ⟨form_transfer rfl h.form heffect, fun _ _ hparked => (nomatch hparked),
      fun d hd => ⟨rfl, rfl, hthrowing, ?_⟩⟩
    obtain ⟨-, -, -, r, hused⟩ := h.helped d hd
    obtain ⟨-, -, hkept⟩ := used_transfer hused rfl rfl hd heffect
    have hgrows := ((site c s.points ix (s.point ix)).transfer_grows s.memo).trans hmemo
    exact ⟨r, ((hkept post rfl).mono hgrows).congr rfl rfl rfl⟩
  | @parked queue cur r f hqueue hthrowing heffect =>
    rw [status_set hix]
    obtain ⟨hcur, hthrough⟩ := Site.transfer_waits _ heffect
    have hgiven := h.given_of_goesThrough hthrough
    have hcur : cur = (s.point ix).given := hcur.trans hgiven
    refine ⟨.inl hcur, fun r' f' hparked => ?_, fun d hd => ?_⟩
    · cases hparked
      exact .given hcur (hgiven ▸ hthrough)
    · obtain ⟨-, -, -, r', hused⟩ := h.helped d hd
      exact ((used_transfer hused rfl rfl hd heffect).2.1 r f rfl).elim

/-- A guess that leads on was used. -/
theorem used_of_waiting (hmemo : memo.busy = []) (hsound : Sound c memo s)
    (hix : ix < s.points.length) {r : Nat} (hwaits : Waiting c ix (s.point ix) r)
    (hvisits : (s.point ix).visits ≠ 0) {d : Descriptor} {cur : Instruction}
    {post : List RegisterType} {memo' : Memo}
    (heffect : (({ site c s.points ix (s.point ix) with
      hint := some (RegisterType.reference d) }).transfer.run s.memo).1 = ⟨cur, .ok post⟩)
    (hmemo' : (({ site c s.points ix (s.point ix) with
      hint := some (RegisterType.reference d) }).transfer.run s.memo).2.Grows memo')
    {p : Point} (hp : p.given = (s.point ix).given) (hcurrent : p.current = cur)
    (hpost : p.post = post) : c.Used memo' p r d := by
  have hok := hsound.points ix hix
  have hidle := hsound.grown.idle hmemo
  generalize hsite : ({ site c s.points ix (s.point ix) with
    hint := some (RegisterType.reference d) } : Site) = seen at heffect hmemo'
  have hseen : seen.current = (s.point ix).current := by rw [← hsite]; rfl
  have hhint : seen.hint = some (RegisterType.reference d) := by rw [← hsite]
  have hpath : seen.path = c.path := by rw [← hsite]; rfl
  have hcls : seen.cls = c.cls := by rw [← hsite]; rfl
  obtain ⟨-, hsame, hrestore, -⟩ := seen.transfer_ok heffect
  cases hwaits with
  | given hgiven hthrough =>
    have hseen : seen.current = (s.point ix).given := hseen.trans hgiven
    rcases hthrough with hobject | ⟨hreads, harray⟩
    · -- the class of the object is the guess
      have hneeds : seen.current.opcode.odexForm.NeedsObject := by
        rw [hseen]
        exact Instruction.needsObject_of_objectRegister? hobject
      refine .access (hp ▸ hobject) fun types htypes => ?_
      have hguess : ∀ k t, seen.current.objectRegister? = some k → seen.objectIn k = some t →
          types[k]? = some t := by
        intro k t hk ht
        rw [hseen, hobject] at hk
        cases hk
        unfold Site.objectIn at ht
        rw [hhint] at ht
        cases ht
        exact htypes
      have hresolves := Site.restore_resolves_object hpath hcls hguess hneeds hidle
        (hrestore hneeds)
      rw [hp, hcurrent, ← hseen]
      exact hresolves.mono ((seen.restore_grows_transfer _).trans hmemo')
    · have hplain : seen.current.Plain := by rw [hseen]; exact hreads.plain
      have hcur : cur = (s.point ix).given := (hsame hplain).trans hseen
      rw [seen.transfer_plain hplain] at heffect
      injection heffect with _ happly
      rw [hseen] at happly
      obtain ⟨dest, v, hdest, hv, hset⟩ := (seen.apply_hinted hhint hreads _).1 _ happly
      rw [hpath] at hv
      exact .element (hp ▸ hreads) (hp ▸ harray) (by rw [hcurrent, hcur, hp]) (hp ▸ hdest)
        (hp ▸ hv) (hpost ▸ hset)
  | doomed _ hplain hfails =>
    have hwidth : seen.pre.length = (startOf c ix).length := by
      rw [← hsite]
      exact hok.width (hok.reached_of_visits hvisits)
    have hplain' : seen.current.Plain := hseen ▸ hplain
    obtain ⟨f, hf⟩ := hfails seen hwidth s.memo
    rw [seen.transfer_plain hplain', hseen, hf] at heffect
    injection heffect with _ happly
    cases happly

theorem aid (hmemo : memo.busy = []) (hsound : Sound c memo s) (hix : ix < s.points.length)
    (h : Accounted c ix (s.status ix)) (haid : Aid c ix s s₁ ts) :
    Accounted c ix (s₁.status ix) := by
  have hok := hsound.points ix hix
  -- what waits has no guess
  have hnone (hparked : (s.point ix).parked.isSome) {d : Descriptor}
      (hd : (s.point ix).hint = some (RegisterType.reference d)) : False := by
    have hfree : (s.point ix).parked = none := (h.helped d hd).2.1
    rw [hfree] at hparked
    cases hparked
  cases haid with
  | tried hparked =>
    rw [status_set hix]
    exact ⟨h.form, fun r f hwaits => (h.waits r f hwaits).congr rfl rfl,
      fun d hd => (hnone hparked hd).elim⟩
  | @unhelped t cur e hparked hhint heffect =>
    rw [status_set hix]
    refine ⟨form_transfer rfl h.form heffect, fun r f hwaits => ?_, fun _ hd => (nomatch hd)⟩
    -- a plain form stays
    have hsame (hplain : (s.point ix).current.Plain) : cur = (s.point ix).current := by
      rcases Site.transfer_error _ heffect with ⟨hsame, -⟩ | ⟨-, hsame, -⟩
      · exact hsame
      · exact hsame hplain
    cases h.waits r f hwaits with
    | given hcurrent hthrough =>
      have hcurrent : (s.point ix).current = (s.point ix).given := hcurrent
      rcases hthrough with hobject | hreads
      · have hneeds := Instruction.needsObject_of_objectRegister? hobject
        rw [status_point, ← hcurrent] at hneeds
        rcases Provenance.transfer_unhelped hok hparked hneeds heffect with hcur | ⟨hplain, hfails⟩
        · exact .given (Eq.trans hcur hcurrent) (.inl hobject)
        · exact .doomed (.inl hobject) hplain hfails
      · have hplain : (s.point ix).current.Plain := by rw [hcurrent]; exact hreads.1.plain
        exact .given (Eq.trans (hsame hplain) hcurrent) (.inr hreads)
    | doomed hthrough hplain hfails =>
      rw [hsame hplain]
      exact .doomed hthrough hplain hfails
  | @helped t cur post narrowing memo' note hparked hhint htried heffect hmemo' =>
    rw [status_set hix]
    refine ⟨form_transfer rfl h.form heffect, fun _ _ hwaits => (nomatch hwaits), fun d hd => ?_⟩
    injection hd with hd
    subst hd
    have hfree : (s.point ix).throwing = none := (hok.parked hparked).2
    obtain ⟨⟨r, f⟩, hsome⟩ := Option.isSome_iff_exists.1 hparked
    exact ⟨rfl, rfl, hfree, r, used_of_waiting hmemo hsound hix (h.waits r f hsome)
      (hok.visits_ne_zero (.inl hparked)) heffect hmemo' rfl rfl rfl⟩
  | gaveUp hparked =>
    rw [status_set hix]
    exact ⟨h.form, fun _ _ hwaits => (nomatch hwaits), fun d hd =>
      (hnone (by rw [hparked]; rfl) hd).elim⟩

end Accounted

theorem Steps.accounted {c : MethodContext} (hc : c.Built) {memo : Memo} (hmemo : memo.busy = [])
    {count : Nat} {s : Session} (h : Steps c (Session.initial c memo) count s) :
    Everywhere (Accounted c) s := by
  refine h.everywhere hc (Accounted.stable c) (fun _ _ _ => ?_) ?_ ?_
  · exact ⟨.inl rfl, fun _ _ hparked => (nomatch hparked), fun _ hd => nomatch hd⟩
  · intro count s s₁ ix ts _ _ hix haccounted hvisit
    exact haccounted.visit hix hvisit
  · intro s s₁ ix ts hsound hix haccounted haid
    exact haccounted.aid hmemo hsound hix haid

end Session

end SymbolicDex
