import SymbolicDex.Proofs.Analysis.Moves
import SymbolicDex.Proofs.RegisterType.MergeOrder

/- Wide values take two registers. What sets a lower half sets the upper half
   with it, and where paths meet the halves meet their like. What sets one
   register alone does not look at the register before it.

   What is proved:
     1. `Whole.mergeAll`: pairs that meet are pairs.
     2. `MethodContext.start_whole`: on entry the registers are paired.
     3. `Site.transfer_sets`: an instruction sets its first operand, and the next
        register only with a wide value.
     4. `Site.Sets.whole`: so a pair stays, unless the register after a lower half
        is set. -/
namespace SymbolicDex

/-! ## Pairs of registers -/

namespace RegisterType

/-- The category that a register has. -/
def categoryAt (v : List RegisterType) (r : Nat) : Option Category := (v[r]?).map (·.category)

/-- The register holds no lower half, or the next one the upper half of it. -/
def Paired (r : Nat) (v : List RegisterType) : Prop :=
  (categoryAt v r).bind Category.wideHigh? = none ∨
    (categoryAt v r).bind Category.wideHigh? = categoryAt v (r + 1)

instance (r : Nat) (v : List RegisterType) : Decidable (Paired r v) :=
  inferInstanceAs (Decidable (_ ∨ _))

/-- `n` registers, of which `r` is known and paired. -/
structure Whole (n r : Nat) (v : List RegisterType) : Prop where
  length : v.length = n
  paired : Paired r v
  known : categoryAt v r ≠ some .unknown

theorem categoryAt_set {v : List RegisterType} {w : Nat} (hw : w < v.length) (t : RegisterType)
    (i : Nat) : categoryAt (v.set w t) i = if i = w then some t.category else categoryAt v i := by
  unfold categoryAt
  split
  · next h => rw [h, List.getElem?_set_self hw, Option.map_some]
  · next h => rw [List.getElem?_set_ne (Ne.symm h)]

theorem Paired.of_not_low {v : List RegisterType} {r : Nat} {c : Category}
    (h : categoryAt v r = some c) (hc : c.wideHigh? = none) : Paired r v := by
  left
  rw [h, Option.bind_some, hc]

theorem Paired.high {v : List RegisterType} {r : Nat} {c high : Category} (h : Paired r v)
    (hr : categoryAt v r = some c) (hc : c.wideHigh? = some high) :
    categoryAt v (r + 1) = some high := by
  unfold Paired at h
  rw [hr, Option.bind_some, hc] at h
  exact (h.resolve_left nofun).symm

/-- Whether registers are paired depends on two of them. -/
theorem Whole.congr {n r : Nat} {v w : List RegisterType} (h : Whole n r v)
    (hlength : w.length = v.length) (hfirst : categoryAt w r = categoryAt v r)
    (hsecond : categoryAt w (r + 1) = categoryAt v (r + 1)) : Whole n r w where
  length := hlength.trans h.length
  paired := by
    unfold Paired
    rw [hfirst, hsecond]
    exact h.paired
  known := by
    rw [hfirst]
    exact h.known

end RegisterType

/-! ## Pairs that meet -/

namespace Category

variable {a b high : Category}

theorem join_self (a : Category) : a.join a = a := by
  unfold join
  rw [if_pos (narrower_refl a)]

theorem wideHigh?_cases (h : a.wideHigh? = some high) :
    a = .longLo ∧ high = .longHi ∨ a = .doubleLo ∧ high = .doubleHi := by
  revert h
  cases a <;> simp [wideHigh?, eq_comm]

/-- What is below a lower half is one. -/
theorem low_of_narrower (h : b.wideHigh? = some high) (hab : a.narrowerOrEqual b = true)
    (ha : a ≠ .unknown) : a = .longLo ∨ a = .doubleLo := by
  revert hab ha
  rcases wideHigh?_cases h with ⟨rfl, -⟩ | ⟨rfl, -⟩ <;> cases a <;> decide

/-- Lower halves join to a lower half, and their upper halves to the one of it. -/
theorem join_wideHigh? (ha : a ≠ .unknown) (hb : b ≠ .unknown)
    (h : (a.join b).wideHigh? = some high) :
    ∃ x y, a.wideHigh? = some x ∧ b.wideHigh? = some y ∧ x.join y = high := by
  have hlow := low_of_narrower h (narrower_join_left a b) ha
  have hlow' := low_of_narrower h (narrower_join_right a b) hb
  revert h
  rcases hlow with rfl | rfl <;> rcases hlow' with rfl | rfl <;> intro h <;>
    refine ⟨_, _, rfl, rfl, Option.some.inj (Eq.trans ?_ h)⟩ <;> decide

end Category

namespace RegisterType

variable {p : ClassPath} {n r : Nat} {a b : RegisterType} {as bs : List RegisterType}

theorem merge_low (ha : a.category ≠ .unknown) (hb : b.category ≠ .unknown) {m : Memo}
    {high : Category} (h : ((merge p a b).run m).1.category.wideHigh? = some high) :
    ∃ x y, a.category.wideHigh? = some x ∧ b.category.wideHigh? = some y ∧ x.join y = high := by
  rcases merge_cases p m a b with ⟨hresult, hab⟩ | ⟨-, ha'⟩ | ⟨-, hjoin⟩
  · obtain rfl := hab.resolve_right hb
    rw [hresult] at h
    exact ⟨high, high, h, h, high.join_self⟩
  · exact absurd ha' ha
  · rcases hjoin with ⟨-, hresult⟩ | ⟨-, hresult⟩ | ⟨-, -, hresult⟩
    · rw [hresult] at h
      cases h
    · rw [hresult] at h
      cases h
    · rw [hresult] at h
      exact Category.join_wideHigh? ha hb h

theorem merge_high {x y low low' : Category} (hx : low.wideHigh? = some x)
    (hy : low'.wideHigh? = some y) (ha : a.category = x) (hb : b.category = y) (m : Memo) :
    ((merge p a b).run m).1.category = x.join y := by
  have hknown : a.category ≠ .unknown ∧ b.category ≠ .unknown := by
    rw [ha, hb]
    rcases Category.wideHigh?_cases hx with ⟨-, rfl⟩ | ⟨-, rfl⟩ <;>
      rcases Category.wideHigh?_cases hy with ⟨-, rfl⟩ | ⟨-, rfl⟩ <;> decide
  have hjoin : x.join y = .longHi ∨ x.join y = .doubleHi := by
    rcases Category.wideHigh?_cases hx with ⟨-, rfl⟩ | ⟨-, rfl⟩ <;>
      rcases Category.wideHigh?_cases hy with ⟨-, rfl⟩ | ⟨-, rfl⟩ <;> decide
  rcases merge_cases p m a b with ⟨hresult, hab⟩ | ⟨-, ha'⟩ | ⟨-, hresult⟩
  · obtain rfl := hab.resolve_right hknown.2
    rw [hresult, ← ha, ← hb, Category.join_self]
  · exact absurd ha' hknown.1
  · rw [ha, hb] at hresult
    rcases hresult with ⟨href, -⟩ | ⟨huninit, -⟩ | ⟨-, -, hresult⟩
    · rcases hjoin with h | h <;> cases h.symm.trans href
    · rcases hjoin with h | h <;> rw [h] at huninit <;> rcases huninit with h | h <;> cases h
    · rw [hresult]
      rfl

theorem merge_known (ha : a.category ≠ .unknown) (hb : b.category ≠ .unknown) (m : Memo) :
    ((merge p a b).run m).1.category ≠ .unknown := by
  rcases merge_cases p m a b with ⟨hresult, -⟩ | ⟨hresult, -⟩ | ⟨-, hresult⟩
  · rwa [hresult]
  · rwa [hresult]
  · rcases hresult with ⟨-, hresult⟩ | ⟨-, hresult⟩ | ⟨-, -, hresult⟩
    · rw [hresult]
      exact fun h => nomatch h
    · rw [hresult]
      exact fun h => nomatch h
    · rw [hresult]
      intro hjoin
      have hbelow := Category.narrower_join_left a.category b.category
      rw [show a.category.join b.category = .unknown from hjoin] at hbelow
      exact ha (Category.eq_unknown_of_narrower hbelow)

theorem mergeAll_cons (p : ClassPath) (a b : RegisterType) (as bs : List RegisterType) (m : Memo) :
    ∃ m', ((mergeAll p (a :: as) (b :: bs)).run m).1 =
      ((merge p a b).run m).1 :: ((mergeAll p as bs).run m').1 := by
  rw [mergeAll]
  split
  -- merging with what is unknown changes nothing either
  · next hb =>
    refine ⟨m, ?_⟩
    rw [merge, if_pos (.inr hb)]
    rfl
  · exact ⟨_, rfl⟩

/-- Registers are merged one by one. -/
theorem mergeAll_at (p : ClassPath) (as bs : List RegisterType) (m : Memo) (i : Nat) :
    (as[i]? = none ∨ bs[i]? = none) ∧ ((mergeAll p as bs).run m).1[i]? = as[i]? ∨
      ∃ a b m', as[i]? = some a ∧ bs[i]? = some b ∧
        ((mergeAll p as bs).run m).1[i]? = some ((merge p a b).run m').1 := by
  induction as generalizing bs m i with
  | nil => exact .inl ⟨.inl rfl, rfl⟩
  | cons a as ih =>
    cases bs with
    | nil => exact .inl ⟨.inr rfl, rfl⟩
    | cons b bs =>
      obtain ⟨m', hm'⟩ := mergeAll_cons p a b as bs m
      rw [hm']
      cases i with
      | zero => exact .inr ⟨a, b, m, rfl, rfl, rfl⟩
      | succ i =>
        simp only [List.getElem?_cons_succ]
        exact ih bs m' i

theorem Whole.mergeAll (ha : Whole n r as) (hb : Whole n r bs) (m : Memo) :
    Whole n r ((mergeAll p as bs).run m).1 := by
  have hlength := (Session.mergeAll_length p as bs m).trans ha.length
  rcases mergeAll_at p as bs m r with ⟨hnone, hfirst⟩ | ⟨a, b, m₁, hfirst, hfirst', hmerged⟩
  · have hout : n ≤ r := by
      rcases hnone with h | h
      · rw [← ha.length]
        exact List.getElem?_eq_none_iff.1 h
      · rw [← hb.length]
        exact List.getElem?_eq_none_iff.1 h
    have hempty : categoryAt ((RegisterType.mergeAll p as bs).run m).1 r = none := by
      unfold categoryAt
      rw [List.getElem?_eq_none (by omega), Option.map_none]
    exact ⟨hlength, .inl (by rw [hempty, Option.bind_none]), by rw [hempty]; exact nofun⟩
  · have hcategory : categoryAt ((RegisterType.mergeAll p as bs).run m).1 r =
        some ((merge p a b).run m₁).1.category := by
      unfold categoryAt
      rw [hmerged, Option.map_some]
    have hka : categoryAt as r = some a.category := by
      unfold categoryAt
      rw [hfirst, Option.map_some]
    have hkb : categoryAt bs r = some b.category := by
      unfold categoryAt
      rw [hfirst', Option.map_some]
    have hknown : a.category ≠ .unknown := fun h => ha.known (by rw [hka, h])
    have hknown' : b.category ≠ .unknown := fun h => hb.known (by rw [hkb, h])
    refine ⟨hlength, ?_, ?_⟩
    · cases hlow : ((merge p a b).run m₁).1.category.wideHigh? with
      | none => exact .of_not_low hcategory hlow
      | some high =>
        -- both sides hold a lower half here, and the upper half after it
        obtain ⟨x, y, hx, hy, hjoin⟩ := merge_low hknown hknown' hlow
        obtain ⟨a', ha', hxa⟩ := Option.map_eq_some_iff.1 (ha.paired.high hka hx)
        obtain ⟨b', hb', hyb⟩ := Option.map_eq_some_iff.1 (hb.paired.high hkb hy)
        right
        rw [hcategory, Option.bind_some, hlow, ← hjoin]
        rcases mergeAll_at p as bs m (r + 1) with
          ⟨hnone, -⟩ | ⟨a₁, b₁, m₂, ha₁, hb₁, hmerged'⟩
        · rcases hnone with h | h
          · cases h.symm.trans ha'
          · cases h.symm.trans hb'
        · cases ha₁.symm.trans ha'
          cases hb₁.symm.trans hb'
          unfold categoryAt
          rw [hmerged', Option.map_some, merge_high hx hy hxa hyb]
    · rw [hcategory]
      intro h
      exact merge_known hknown hknown' m₁ (Option.some.inj h)

/-- Merged with nothing, registers keep their categories. -/
theorem Whole.of_unknown (h : Whole n r bs) (m : Memo) :
    Whole n r ((RegisterType.mergeAll p (List.replicate n unknown) bs).run m).1 := by
  have hsame (i : Nat) : categoryAt
      ((RegisterType.mergeAll p (List.replicate n unknown) bs).run m).1 i = categoryAt bs i := by
    have hlength := h.length
    unfold categoryAt
    rcases mergeAll_at p (List.replicate n unknown) bs m i with ⟨hnone, hi⟩ | ⟨a, b, m', ha, hb, hi⟩
    · have hout : n ≤ i := by
        rcases hnone with h | h
        · simpa using List.getElem?_eq_none_iff.1 h
        · exact hlength ▸ List.getElem?_eq_none_iff.1 h
      rw [hi, List.getElem?_eq_none (by simpa using hout), List.getElem?_eq_none (by omega)]
    · obtain rfl : a = unknown := List.eq_of_mem_replicate (List.mem_of_getElem? ha)
      rw [hi, hb, Option.map_some, Option.map_some]
      rcases merge_cases p m' unknown b with ⟨hresult, hb⟩ | ⟨hresult, -⟩ | ⟨⟨-, hknown, -⟩, -⟩
      · rw [hresult]
        rcases hb with rfl | hb
        · rfl
        · rw [hb]
          rfl
      · rw [hresult]
      · exact absurd rfl hknown
  refine h.congr ?_ (hsame r) (hsame (r + 1))
  rw [Session.mergeAll_length, List.length_replicate, h.length]

end RegisterType

open RegisterType

/-! ## Registers on entry -/

namespace MethodContext

/-- Every register is known and paired. -/
def Complete (v : List RegisterType) : Prop :=
  ∀ r, Paired r v ∧ categoryAt v r ≠ some .unknown

variable {v : List RegisterType} {t u : RegisterType}

theorem Complete.nil : Complete [] := fun _ => ⟨.inl rfl, nofun⟩

theorem Complete.cons (h : Complete v) (hlow : t.category.wideHigh? = none)
    (hknown : t.category ≠ .unknown) : Complete (t :: v) := by
  intro r
  cases r with
  | zero => exact ⟨.of_not_low rfl hlow, fun heq => hknown (Option.some.inj heq)⟩
  | succ r => exact h r

theorem Complete.pair (h : Complete v) (hlow : t.category.wideHigh? = some u.category) :
    Complete (t :: u :: v) := by
  have hupper : Complete (u :: v) := by
    rcases Category.wideHigh?_cases hlow with ⟨-, hu⟩ | ⟨-, hu⟩ <;>
      exact h.cons (by rw [hu]; rfl) (by rw [hu]; decide)
  intro r
  cases r with
  | zero =>
    refine ⟨.inr hlow, fun heq => ?_⟩
    have hunknown : t.category = .unknown := Option.some.inj heq
    rw [hunknown] at hlow
    cases hlow
  | succ r => exact hupper r

/-- A value that is not void takes a register, or two that are paired. -/
theorem valueTypes_cases {d : Descriptor} (hd : d ≠ "V") :
    (∃ t, valueTypes d = [t] ∧ d.registerWidth = 1 ∧ t.category.wideHigh? = none ∧
      t.category ≠ .unknown) ∨
    ∃ t u, valueTypes d = [t, u] ∧ d.registerWidth = 2 ∧
      t.category.wideHigh? = some u.category := by
  by_cases hlong : d = "J"
  · subst hlong
    exact .inr ⟨_, _, rfl, by decide, rfl⟩
  by_cases hdouble : d = "D"
  · subst hdouble
    exact .inr ⟨_, _, rfl, by decide, rfl⟩
  have hnarrow : (ofDescriptor d).category.wideHigh? = none ∧
      (ofDescriptor d).category ≠ .unknown := by
    simp only [ofDescriptor, beq_iff_eq, hd, hlong, hdouble, if_false]
    repeat' split
    all_goals exact ⟨rfl, nofun⟩
  refine .inl ⟨ofDescriptor d, ?_, ?_, hnarrow⟩
  · simp [valueTypes, wideHigh?, hnarrow.1]
  · simp [Descriptor.registerWidth, Descriptor.isWide, hd, hlong, hdouble]

theorem values_complete {ds : List Descriptor} (h : ∀ d ∈ ds, d ≠ "V") :
    Complete (ds.flatMap valueTypes) ∧
      (ds.flatMap valueTypes).length = (ds.map Descriptor.registerWidth).foldr (· + ·) 0 := by
  induction ds with
  | nil => exact ⟨.nil, rfl⟩
  | cons d ds ih =>
    obtain ⟨hd, hds⟩ := List.forall_mem_cons.1 h
    obtain ⟨hrest, hlength⟩ := ih hds
    rw [List.flatMap_cons, List.length_append, hlength, List.map_cons, List.foldr_cons]
    rcases valueTypes_cases hd with ⟨t, ht, hwidth, hlow, hknown⟩ | ⟨t, u, ht, hwidth, hlow⟩
    · rw [ht, hwidth]
      exact ⟨hrest.cons hlow hknown, rfl⟩
    · rw [ht, hwidth]
      exact ⟨hrest.pair hlow, rfl⟩

theorem start_whole {path : ClassPath} {cls : ClassDef} {m : MethodDef} {c : MethodContext}
    (hc : MethodContext.of path cls m = .ok c) (h : ∀ d ∈ m.prototype.params, d ≠ "V") (r : Nat) :
    Whole c.code.registers r c.start := by
  obtain ⟨-, -, -, -, -, hstart⟩ := MethodContext.of_inv hc
  obtain ⟨hvalues, hlength⟩ := values_complete h
  unfold startTypes at hstart
  split at hstart
  · cases hstart
  · next hwidth =>
    injection hstart with hstart
    have hthis : Complete ((if m.isStatic then [] else [thisType cls m]) ++
        m.prototype.params.flatMap valueTypes) := by
      split
      · exact hvalues
      · refine hvalues.cons ?_ ?_ <;> unfold thisType <;> split <;> first | rfl | exact nofun
    have hall : Complete c.start := by
      rw [← hstart, List.append_assoc]
      induction c.code.registers - m.registerCount with
      | zero => exact hthis
      | succ k ih => exact ih.cons rfl nofun
    refine ⟨?_, (hall r).1, (hall r).2⟩
    have hcount : m.registerCount = (m.prototype.params.flatMap valueTypes).length +
        if m.isStatic then 0 else 1 := by
      rw [hlength]
      rfl
    have hreceiver : (if m.isStatic then [] else [thisType cls m]).length =
        if m.isStatic then 0 else 1 := by
      split <;> rfl
    rw [← hstart, List.length_append, List.length_append, List.length_replicate, hreceiver]
    generalize (if m.isStatic then 0 else 1) = receiver at hcount ⊢
    omega

end MethodContext

/-! ## What an instruction sets -/

/-- The register that a plain instruction sets, the first of two if it sets a
    wide value. -/
def Instruction.written? (i : Instruction) : Option Nat :=
  match i.opcode.registerEffect with
  | .keep | .construct => none
  | _ => i.register? 0

theorem Instruction.written?_eq {i : Instruction} (hkeep : i.opcode.registerEffect ≠ .keep)
    (hconstruct : i.opcode.registerEffect ≠ .construct) : i.written? = i.register? 0 := by
  unfold written?
  split
  · next h => exact absurd h hkeep
  · next h => exact absurd h hconstruct
  · rfl

namespace Site

open Rule

variable (s : Site)

/-- What the instruction `i` may leave: the state before, where a constructor may
    have initialized references, or a state with its first operand set. -/
inductive Sets (i : Instruction) : List RegisterType → Prop where
  | kept {post : List RegisterType} (hlength : post.length = s.pre.length)
      (hsame : ∀ j, categoryAt post j = categoryAt s.pre j ∨
        categoryAt post j = some .reference ∧
          (categoryAt s.pre j = some .uninitRef ∨ categoryAt s.pre j = some .uninitThis)) :
      Sets i post
  | single {w : Nat} {t : RegisterType} (hw : i.written? = some w) (hlt : w < s.pre.length)
      (ht : t.category.wideHigh? = none) : Sets i (s.pre.set w t)
  | pair {w : Nat} {t : RegisterType} {high : Category} (hw : i.written? = some w)
      (hlt : w + 1 < s.pre.length) (ht : t.category.wideHigh? = some high) :
      Sets i ((s.pre.set w t).set (w + 1) (ofCategory high))

theorem Sets.refl (i : Instruction) : s.Sets i s.pre := .kept rfl fun _ => .inl rfl

theorem write_sets {i : Instruction} {w : Nat} (hw : i.written? = some w) (t : RegisterType) :
    Ensures (s.write w t) (s.Sets i) fun _ => True := by
  unfold write
  refine Ensures.ite (fun _ => Ensures.fail trivial) fun hlt => ?_
  cases hhigh : t.category.wideHigh? with
  | none =>
    rw [show t.wideHigh? = none from by rw [wideHigh?, hhigh]; rfl]
    exact Ensures.pure (.single hw (Nat.lt_of_not_le hlt) hhigh)
  | some high =>
    rw [show t.wideHigh? = some (ofCategory high) from by rw [wideHigh?, hhigh]; rfl]
    exact Ensures.ite (fun _ => Ensures.fail trivial) fun hlt' =>
      Ensures.pure (.pair hw (Nat.lt_of_not_le hlt') hhigh)

theorem construct_sets (i : Instruction) : Ensures (s.construct i) (s.Sets i) fun _ => True := by
  have hsame : Ensures (pure s.pre : Rule _) (s.Sets i) fun _ => True :=
    Ensures.pure (.refl s i)
  unfold construct
  split
  · exact hsame
  · refine Ensures.ite (fun _ => hsame) fun _ => ?_
    refine Ensures.bind (Ensures.need (fun _ _ => trivial) trivial) fun r (_ : True) => ?_
    refine Ensures.bind (Ensures.need (fun _ _ => trivial) trivial) fun object (_ : True) => ?_
    refine Ensures.ite (fun huninit => ?_) fun _ => hsame
    split
    · exact hsame
    · refine Ensures.pure (.kept (List.length_map _) fun j => ?_)
      unfold categoryAt
      rw [List.getElem?_map]
      cases hj : s.pre[j]? with
      | none => exact .inl rfl
      | some t =>
        simp only [Option.map_some]
        split
        · next heq =>
          rw [heq]
          exact .inr ⟨rfl, huninit.imp (congrArg some) (congrArg some)⟩
        · exact .inl rfl

/-- An instruction sets its first operand and nothing else. -/
theorem apply_sets (i : Instruction) : Ensures (s.apply i) (s.Sets i) fun _ => True := by
  have hdest {w : Nat} {effect : RegisterEffect} (heffect : i.opcode.registerEffect = effect)
      (hkeep : effect ≠ .keep) (hconstruct : effect ≠ .construct)
      (hw : i.register? 0 = some w) (t : RegisterType) :
      Ensures (s.write w t) (s.Sets i) fun _ => True := by
    refine s.write_sets ?_ t
    rw [Instruction.written?_eq (heffect ▸ hkeep) (heffect ▸ hconstruct), hw]
  unfold apply
  cases heffect : i.opcode.registerEffect with
  | keep => exact Ensures.pure (.refl s i)
  | construct => exact s.construct_sets i
  | copy =>
    refine Ensures.bind .found fun w hw => Ensures.bind .found fun _ _ => ?_
    exact Ensures.bind .found fun t _ => hdest heffect nofun nofun hw t
  | result =>
    refine Ensures.bind .found fun w hw => Ensures.bind .found fun _ _ => ?_
    exact Ensures.bind (.any _) fun t _ => hdest heffect nofun nofun hw t
  | exception =>
    refine Ensures.bind .found fun w hw => ?_
    split
    · exact Ensures.fail trivial
    · exact Ensures.bind (.any _) fun t _ => hdest heffect nofun nofun hw t
  | literal =>
    refine Ensures.bind .found fun w hw => Ensures.bind .found fun _ _ => ?_
    exact hdest heffect nofun nofun hw _
  | value _ => exact Ensures.bind .found fun w hw => hdest heffect nofun nofun hw _
  | ofClass _ => exact Ensures.bind .found fun w hw => hdest heffect nofun nofun hw _
  | named =>
    refine Ensures.bind .found fun w hw => Ensures.bind .found fun _ _ => ?_
    exact hdest heffect nofun nofun hw _
  | newInstance =>
    refine Ensures.bind .found fun w hw => Ensures.bind .found fun _ _ => ?_
    exact hdest heffect nofun nofun hw _
  | wideElement =>
    refine Ensures.bind .found fun w hw => Ensures.bind .found fun _ _ => ?_
    refine Ensures.bind (.any _) fun _ _ => ?_
    exact Ensures.bind (.any _) fun t _ => hdest heffect nofun nofun hw t
  | objectElement =>
    refine Ensures.bind .found fun w hw => Ensures.bind .found fun _ _ => ?_
    refine Ensures.bind (.any _) fun _ _ => ?_
    exact Ensures.bind (.any _) fun t _ => hdest heffect nofun nofun hw t
  | field =>
    refine Ensures.bind .found fun w hw => Ensures.bind .found fun _ _ => ?_
    exact hdest heffect nofun nofun hw _
  | bitwise _ _ =>
    refine Ensures.bind .found fun _ _ => Ensures.bind .found fun _ _ => ?_
    refine Ensures.bind .found fun _ _ => Ensures.bind .found fun _ _ => ?_
    exact Ensures.bind .found fun w hw => hdest heffect nofun nofun hw _
  | bitwiseLiteral =>
    refine Ensures.bind .found fun _ _ => Ensures.bind .found fun _ _ => ?_
    exact Ensures.bind .found fun w hw => hdest heffect nofun nofun hw _
  | shiftRight _ =>
    refine Ensures.bind .found fun _ _ => Ensures.bind .found fun _ _ => ?_
    exact Ensures.bind .found fun w hw => hdest heffect nofun nofun hw _

theorem transfer_sets {m : Memo} {i : Instruction} {post : List RegisterType}
    (h : (s.transfer.run m).1 = ⟨i, .ok post⟩) : s.Sets i post := by
  rcases s.transfer_cases m with ⟨e, -, he⟩ | ⟨j, -, he⟩ | ⟨j, -, he, -⟩
  · rw [he] at h
    injection h with _ h
    cases h
  · rw [he] at h
    injection h with _ h
    cases h
    exact .refl s i
  · rw [he] at h
    injection h with hi h
    subst hi
    exact (s.apply_sets j _).1 post h

variable {s} {n r : Nat} {i : Instruction} {post : List RegisterType}

/-- A constructor initializes no half of a wide value. -/
theorem initialized_whole (hpre : Whole n r s.pre) (hlength : post.length = s.pre.length)
    (hsame : ∀ j, categoryAt post j = categoryAt s.pre j ∨
      categoryAt post j = some .reference ∧
        (categoryAt s.pre j = some .uninitRef ∨ categoryAt s.pre j = some .uninitThis)) :
    Whole n r post := by
  rcases hsame r with hfirst | ⟨hfirst, -⟩
  · rcases hsame (r + 1) with hsecond | ⟨-, huninit⟩
    · exact hpre.congr hlength hfirst hsecond
    · refine ⟨hlength.trans hpre.length, .inl ?_, hfirst ▸ hpre.known⟩
      rw [hfirst, Option.bind_eq_none_iff]
      intro low hlow
      cases hhigh : low.wideHigh? with
      | none => rfl
      | some high =>
        rw [hpre.paired.high hlow hhigh] at huninit
        rcases Category.wideHigh?_cases hhigh with ⟨-, rfl⟩ | ⟨-, rfl⟩ <;>
          rcases huninit with h | h <;> cases h
  · refine ⟨hlength.trans hpre.length, .of_not_low hfirst rfl, ?_⟩
    rw [hfirst]
    nofun

theorem single_whole {w : Nat} {t : RegisterType} (hpre : Whole n r s.pre)
    (hlt : w < s.pre.length) (ht : t.category.wideHigh? = none)
    (hafter : w = r + 1 → Paired r (s.pre.set w t))
    (hvoid : w = r → categoryAt (s.pre.set w t) r ≠ some .unknown) :
    Whole n r (s.pre.set w t) := by
  have hlength : (s.pre.set w t).length = n := by simpa using hpre.length
  have hat := categoryAt_set hlt t
  by_cases hfirst : r = w
  · have hr : categoryAt (s.pre.set w t) r = some t.category := by rw [hat, if_pos hfirst]
    exact ⟨hlength, .of_not_low hr ht, hvoid hfirst.symm⟩
  · have hr : categoryAt (s.pre.set w t) r = categoryAt s.pre r := by rw [hat, if_neg hfirst]
    by_cases hsecond : r + 1 = w
    · exact ⟨hlength, hafter hsecond.symm, by rw [hr]; exact hpre.known⟩
    · exact hpre.congr (by simp) hr (by rw [hat, if_neg hsecond])

theorem pair_whole {w : Nat} {t : RegisterType} {high : Category} (hpre : Whole n r s.pre)
    (hlt : w + 1 < s.pre.length) (ht : t.category.wideHigh? = some high)
    (hafter : w = r + 1 → Paired r ((s.pre.set w t).set (w + 1) (ofCategory high)))
    (hvoid : w = r →
      categoryAt ((s.pre.set w t).set (w + 1) (ofCategory high)) r ≠ some .unknown) :
    Whole n r ((s.pre.set w t).set (w + 1) (ofCategory high)) := by
  have hat (j : Nat) : categoryAt ((s.pre.set w t).set (w + 1) (ofCategory high)) j =
      if j = w + 1 then some high else if j = w then some t.category
        else categoryAt s.pre j := by
    rw [categoryAt_set (by simpa using hlt), categoryAt_set (by omega)]
    rfl
  have hlength : ((s.pre.set w t).set (w + 1) (ofCategory high)).length = n := by
    simpa using hpre.length
  generalize (s.pre.set w t).set (w + 1) (ofCategory high) = post at hat hlength hafter hvoid ⊢
  by_cases hfirst : r = w
  · refine ⟨hlength, .inr ?_, hvoid hfirst.symm⟩
    rw [hat, hat, if_neg (by omega), if_pos hfirst, if_pos (by omega)]
    exact ht
  by_cases hupper : r = w + 1
  · have hr : categoryAt post r = some high := by rw [hat, if_pos hupper]
    rcases Category.wideHigh?_cases ht with ⟨-, rfl⟩ | ⟨-, rfl⟩ <;>
      exact ⟨hlength, .of_not_low hr rfl, by rw [hr]; nofun⟩
  have hr : categoryAt post r = categoryAt s.pre r := by
    rw [hat, if_neg hupper, if_neg hfirst]
  by_cases hsecond : r + 1 = w
  · exact ⟨hlength, hafter hsecond.symm, by rw [hr]; exact hpre.known⟩
  · refine hpre.congr (hlength.trans hpre.length.symm) hr ?_
    rw [hat, if_neg (by omega), if_neg hsecond]

/-- A pair stays unless the register after it is set, or the register itself to
    something void. -/
theorem Sets.whole (h : s.Sets i post) (hpre : Whole n r s.pre)
    (hafter : i.written? = some (r + 1) → Paired r post)
    (hvoid : i.written? = some r → categoryAt post r ≠ some .unknown) : Whole n r post := by
  cases h with
  | kept hlength hsame => exact initialized_whole hpre hlength hsame
  | single hw hlt ht =>
    exact single_whole hpre hlt ht (fun h => hafter (h ▸ hw)) fun h => hvoid (h ▸ hw)
  | pair hw hlt ht =>
    exact pair_whole hpre hlt ht (fun h => hafter (h ▸ hw)) fun h => hvoid (h ▸ hw)

end Site

end SymbolicDex
