import Mathlib.Data.Set.Finite.List
import Mathlib.Order.Interval.Set.Infinite
import SymbolicDex.Proofs.Analysis.Completeness
import SymbolicDex.Proofs.Analysis.TypeRange

/- When an analysis ends. States are replaced, not widened, so nothing keeps an
   instruction from going back to a state it had, and a loop from going round
   forever. This is the one way not to end, as long as lookups end and arrays do
   not get deeper and deeper.

   What is proved:
     1. `finite_points`: within bounds there are finitely many states.
     2. `exists_settled`: a run that never ends comes to make visits only, which
        keep all forms and stay within bounds.
     3. `analysis_ends_iff`: an analysis ends exactly if every lookup ends, it
        never comes back to where it was, and the depth of arrays is bounded.
     4. `shallow_of_classes`: the last holds unless some class extends an array.
     5. `shifter_never_ends`: a loop over a shift that goes back and forth between
        two types. -/
namespace SymbolicDex

/-! ## Finitely many states -/

theorem finite_lists {α : Type} {S : Set α} (hS : S.Finite) (bound : Nat) :
    {l : List α | l.length ≤ bound ∧ ∀ a ∈ l, a ∈ S}.Finite := by
  have := hS.to_subtype
  refine ((List.finite_length_le S bound).image (List.map Subtype.val)).subset ?_
  rintro l ⟨hlength, hl⟩
  lift l to List S using hl
  exact ⟨l, by simpa using hlength, rfl⟩

theorem finite_descriptors (bound : Nat) : {d : Descriptor | d.toList.length ≤ bound}.Finite := by
  have hchar : Finite Char :=
    Finite.of_injective (fun c : Char => c.val.toFin) fun a b h => Char.ext (UInt32.toFin_inj.1 h)
  refine Set.Finite.preimage (f := String.toList) ?_ (List.finite_length_le Char bound)
  exact fun a _ b _ h => String.toList_inj.1 h

/-- Types with a class of bounded length. -/
theorem finite_types (bound : Nat) :
    {t : RegisterType | t.In fun d => d.toList.length ≤ bound}.Finite := by
  have hcategories : (Set.univ : Set Category).Finite := by
    refine (List.finite_toSet Category.all).subset fun c _ => ?_
    cases c <;> decide
  have hclasses : {o : Option Descriptor | ∀ d, o = some d → d.toList.length ≤ bound}.Finite := by
    refine (((finite_descriptors bound).image some).insert none).subset fun o ho => ?_
    cases o with
    | none => exact Set.mem_insert _ _
    | some d => exact Set.mem_insert_of_mem _ ⟨d, ho d rfl, rfl⟩
  refine ((hcategories.prod hclasses).image fun q => (⟨q.1, q.2⟩ : RegisterType)).subset ?_
  exact fun t ht => ⟨(t.category, t.cls), ⟨trivial, ht⟩, rfl⟩

/-- Narrowings of a bounded number of registers. -/
def narrowings (S : Set RegisterType) (bound : Nat) : Set (Option Narrowing) :=
  {o | ∀ n, o = some n → n.target ≤ bound ∧ n.registers.length ≤ bound ∧
    ∀ r ∈ n.registers, r.1 ≤ bound ∧ r.2 ∈ S}

theorem finite_narrowings {S : Set RegisterType} (hS : S.Finite) (bound : Nat) :
    (narrowings S bound).Finite := by
  have hregisters := finite_lists ((Set.finite_le_nat bound).prod hS) bound
  refine (((((Set.finite_le_nat bound).prod hregisters).image fun q =>
    some (⟨q.1, q.2⟩ : Narrowing))).insert none).subset fun o ho => ?_
  cases o with
  | none => exact Set.mem_insert _ _
  | some n =>
    obtain ⟨htarget, hlength, hn⟩ := ho n rfl
    exact Set.mem_insert_of_mem _ ⟨(n.target, n.registers), ⟨htarget, hlength, hn⟩, rfl⟩

/-- What the flow depends on, put together from its parts. -/
def Point.ofParts (q : Session.Frame × (List RegisterType × List RegisterType) × (Bool × Bool) ×
    Option Narrowing) : Point where
  given := q.1.1
  current := q.1.2.1
  hint := q.1.2.2.1
  throwing := q.1.2.2.2
  pre := q.2.1.1
  post := q.2.1.2
  reached := q.2.2.1.1
  analyzed := q.2.2.1.2
  narrowing := q.2.2.2

theorem Point.flow_eq_ofParts (p : Point) :
    p.flow = Point.ofParts (p.frame, (p.pre, p.post), (p.reached, p.analyzed), p.narrowing) := rfl

/-- Within bounds and with given forms, there are finitely many points as far as
    the flow depends on them. -/
theorem finite_points (frames : List Session.Frame) (length bound : Nat) :
    {q : Point | ∃ p : Point, p.flow = q ∧ p.frame ∈ frames ∧
      p.Within (fun d => d.toList.length ≤ length) bound}.Finite := by
  have htypes := finite_types length
  have hstates := finite_lists htypes bound
  refine (((List.finite_toSet frames).prod ((hstates.prod hstates).prod
    ((Set.toFinite (Set.univ : Set (Bool × Bool))).prod
      (finite_narrowings htypes bound)))).image Point.ofParts).subset ?_
  rintro q ⟨p, rfl, hframe, hp⟩
  refine ⟨(p.frame, (p.pre, p.post), (p.reached, p.analyzed), p.narrowing),
    ⟨hframe, ⟨⟨hp.pre, fun t ht => ?_⟩, hp.post, fun t ht => ?_⟩, trivial, ?_⟩,
    p.flow_eq_ofParts.symm⟩
  · exact hp.types t (Point.mem_types.2 (.inl ht))
  · exact hp.types t (Point.mem_types.2 (.inr (.inl ht)))
  · intro n hn
    obtain ⟨htarget, hlength, hregisters⟩ := hp.narrowing n hn
    refine ⟨htarget, hlength, fun r hr => ⟨hregisters r hr, ?_⟩⟩
    exact hp.types r.2 (Point.mem_types.2 (.inr (.inr ⟨n, r, hn, hr, rfl⟩)))

/-! ## Bounds for a session -/

theorem exists_bound {α : Type} (f : α → Nat) (as : List α) : ∃ bound, ∀ a ∈ as, f a ≤ bound := by
  induction as with
  | nil => exact ⟨0, fun a ha => nomatch ha⟩
  | cons a as ih =>
    obtain ⟨bound, h⟩ := ih
    refine ⟨max (f a) bound, List.forall_mem_cons.2 ⟨Nat.le_max_left _ _, fun b hb => ?_⟩⟩
    exact Nat.le_trans (h b hb) (Nat.le_max_right _ _)

/-- The numbers that have to be bounded. -/
def Point.numbers (p : Point) : List Nat :=
  p.pre.length :: p.post.length :: (p.current.registers ++
    p.narrowing.elim [] fun n => n.target :: n.registers.length :: n.registers.map (·.1))

/-- The classes that have to be bounded. -/
def Point.classes (p : Point) : List Descriptor :=
  p.current.names ++ p.types.filterMap (·.cls) ++ p.hint.toList.filterMap (·.cls)

def MethodContext.numbers (c : MethodContext) : List Nat :=
  [2, c.start.length, c.code.registers, c.graph.addresses.length, c.code.instructions.length]

def MethodContext.classes (c : MethodContext) : List Descriptor :=
  c.path.roots ++ c.start.filterMap (·.cls) ++ c.code.caught

/-- Every session is within some bounds, for any measure of classes that has
    closed sets. -/
theorem Session.exists_within (c : MethodContext) (s : Session) {measure : Descriptor → Nat}
    (hclosed : ∀ bound, (∀ d ∈ c.path.roots, measure d ≤ bound) →
      c.path.Closed fun d => measure d ≤ bound) :
    ∃ size bound, c.Within (fun d => measure d ≤ size) bound ∧
      (∀ p ∈ s.points, p.Framed (fun d => measure d ≤ size) bound) ∧
      ∀ p ∈ s.points, p.Within (fun d => measure d ≤ size) bound := by
  obtain ⟨size, hsize⟩ := exists_bound measure (c.classes ++ s.points.flatMap Point.classes)
  obtain ⟨bound, hbound⟩ := exists_bound id (c.numbers ++ s.points.flatMap Point.numbers)
  have hcontext : ∀ d ∈ c.classes, measure d ≤ size :=
    fun d hd => hsize d (List.mem_append_left _ hd)
  have hpoint : ∀ p ∈ s.points, ∀ d ∈ p.classes, measure d ≤ size :=
    fun p hp d hd => hsize d (List.mem_append_right _ (List.mem_flatMap.2 ⟨p, hp, hd⟩))
  have hnumber : ∀ n ∈ c.numbers, n ≤ bound := fun n hn => hbound n (List.mem_append_left _ hn)
  have hnumbers : ∀ p ∈ s.points, ∀ n ∈ p.numbers, n ≤ bound :=
    fun p hp n hn => hbound n (List.mem_append_right _ (List.mem_flatMap.2 ⟨p, hp, hn⟩))
  refine ⟨size, bound, ?_, fun p hp => ?_, fun p hp => ?_⟩
  · refine ⟨hclosed size fun d hd => hcontext d ?_, fun t ht d hd => hcontext d ?_,
      fun d hd => hcontext d ?_, ⟨hnumber _ ?_, hnumber _ ?_⟩, hnumber _ ?_, hnumber _ ?_,
      hnumber _ ?_⟩
    · exact List.mem_append_left _ (List.mem_append_left _ hd)
    · exact List.mem_append_left _ (List.mem_append_right _ (List.mem_filterMap.2 ⟨t, ht, hd⟩))
    · exact List.mem_append_right _ hd
    all_goals simp [MethodContext.numbers]
  · refine ⟨⟨fun d hd => hpoint p hp d ?_, fun r hr => hnumbers p hp r ?_⟩,
      fun t ht d hd => hpoint p hp d ?_⟩
    · exact List.mem_append_left _ (List.mem_append_left _ hd)
    · simp [Point.numbers, hr]
    · refine List.mem_append_right _ (List.mem_filterMap.2 ⟨t, ?_, hd⟩)
      rw [ht]
      exact List.mem_singleton_self t
  · refine ⟨fun t ht d hd => hpoint p hp d ?_, hnumbers p hp _ ?_, hnumbers p hp _ ?_,
      fun n hn => ⟨hnumbers p hp _ ?_, hnumbers p hp _ ?_, fun r hr => hnumbers p hp _ ?_⟩⟩
    · exact List.mem_append_left _ (List.mem_append_right _ (List.mem_filterMap.2 ⟨t, ht, hd⟩))
    · exact List.mem_cons_self
    · exact List.mem_cons_of_mem _ List.mem_cons_self
    · simp [Point.numbers, hn]
    · simp [Point.numbers, hn]
    · have hmem : r.1 ∈ n.registers.map (·.1) := List.mem_map.2 ⟨r, hr, rfl⟩
      simp only [Point.numbers, hn, Option.elim, List.mem_cons, List.mem_append]
      exact .inr (.inr (.inr (.inr (.inr hmem))))

/-! ## Runs that never end -/

namespace Session

section

variable {c : MethodContext} {memo : Memo} {s : Nat → Session}

theorem step_of_steps (hs : ∀ n, Steps c (initial c memo) n (s n)) (n : Nat) :
    step c (s n) = .running (s (n + 1)) := by
  cases hs (n + 1) with
  | next h hstep =>
    cases h.unique (hs n)
    exact hstep

/-- A rising sequence of numbers that is bounded comes to stay. -/
theorem exists_constant {f : Nat → Nat} (hf : ∀ n, f n ≤ f (n + 1)) {bound : Nat}
    (hbound : ∀ n, f n ≤ bound) : ∃ N, ∀ n ≥ N, f (n + 1) = f n := by
  by_contra hnot
  push Not at hnot
  have hgrows : ∀ k, ∃ n, k ≤ f n := by
    intro k
    induction k with
    | zero => exact ⟨0, Nat.zero_le _⟩
    | succ k ih =>
      obtain ⟨n, hn⟩ := ih
      obtain ⟨n', hn', hne⟩ := hnot n
      have hmono : f n ≤ f n' := monotone_nat_of_le_succ hf hn'
      have := hf n'
      exact ⟨n' + 1, by omega⟩
  obtain ⟨n, hn⟩ := hgrows (bound + 1)
  have := hbound n
  omega

/-- From some step on, a run that never ends makes only visits that keep all
    forms. -/
theorem exists_settled (hc : c.Built) (hs : ∀ n, Steps c (initial c memo) n (s n)) :
    ∃ N, ∀ n ≥ N, ∃ ix s₁ ts, ix < (s n).points.length ∧ Visit c ix (s n) s₁ ts ∧
      s (n + 1) = ts.foldl (updatePre c) s₁ ∧
      s₁.points.map Point.frame = (s n).points.map Point.frame := by
  have hscore (n : Nat) := step_score hc ((hs n).sound hc) (step_of_steps hs n)
  have hbound (n : Nat) : (s n).score ≤ c.code.instructions.length * 3 := by
    rw [← ((hs n).sound hc).length]
    exact score_bound (s n)
  -- the score rises and is bounded, so from some step on nothing is settled
  obtain ⟨N, hN⟩ := exists_constant (fun n => (hscore n).1) hbound
  exact ⟨N, fun n hn => (hscore n).2 (hN n hn)⟩

/-- From some step on, the forms stay and the types stay within bounds. -/
theorem exists_bounded (hc : c.Built) (hs : ∀ n, Steps c (initial c memo) n (s n))
    {measure : Descriptor → Nat} (hclosed : ∀ bound, (∀ d ∈ c.path.roots, measure d ≤ bound) →
      c.path.Closed fun d => measure d ≤ bound) :
    ∃ N size bound, ∀ n ≥ N,
      (s n).points.map Point.frame = (s N).points.map Point.frame ∧
      ∀ p ∈ (s n).points, p.Within (fun d => measure d ≤ size) bound := by
  obtain ⟨N, hN⟩ := exists_settled hc hs
  obtain ⟨size, bound, hcontext, hframed, hwithin⟩ := exists_within c (s N) hclosed
  refine ⟨N, size, bound, fun n hn => ?_⟩
  -- the forms of step `N` stay, so the bounds found there are kept by every visit
  induction n, hn using Nat.le_induction with
  | base => exact ⟨rfl, hwithin⟩
  | succ n hn ih =>
    obtain ⟨hframe, hwithin⟩ := ih
    obtain ⟨ix, s₁, ts, hix, hvisit, hnext, hkept⟩ := hN n hn
    have hframed : ∀ p ∈ (s n).points, p.Framed (fun d => measure d ≤ size) bound := by
      intro p hp
      have hmem : p.frame ∈ (s N).points.map Point.frame := by
        rw [← hframe]
        exact List.mem_map.2 ⟨p, hp, rfl⟩
      obtain ⟨q, hq, hqp⟩ := List.mem_map.1 hmem
      exact (hframed q hq).of_frame hqp.symm
    rw [hnext, frame_foldl_updatePre, hkept, hframe]
    exact ⟨rfl, hvisit.within hcontext hc ((hs n).sound hc) hix hkept hframed hwithin⟩

theorem length_queue_le {t : Session} (hsound : Sound c memo t) :
    t.queue.length ≤ t.points.length := by
  have hsubset : t.queue ⊆ List.range t.points.length :=
    fun ix hix => List.mem_range.2 (hsound.range ix hix)
  have hle := (List.subperm_of_subset hsound.nodup hsubset).length_le
  rwa [List.length_range] at hle

/-- A run that never ends comes back to where it was, unless arrays get deeper
    and deeper. -/
theorem alike_of_never_ends (hc : c.Built) (hs : ∀ n, Steps c (initial c memo) n (s n))
    {depth : Nat} (hdepth : ∀ n, ∀ p ∈ (s n).points, ∀ t ∈ p.types,
      t.In fun d => d.dimensions ≤ depth) :
    ∃ i j, i < j ∧ Alike (s i) (s j) := by
  obtain ⟨N, size, bound, hN⟩ := exists_bounded hc hs fun bound h => c.path.element_closed h
  have hlength (n : Nat) : (s n).points.length = c.code.instructions.length :=
    ((hs n).sound hc).length
  have hpoints := finite_lists (finite_points ((s N).points.map Point.frame) (depth + size) bound)
    c.code.instructions.length
  have hqueues := finite_lists (Set.finite_le_nat c.code.instructions.length)
    c.code.instructions.length
  have hmaps : Set.MapsTo (fun n => ((s n).points.map Point.flow, (s n).queue)) (Set.Ici N)
      ({l : List Point | l.length ≤ c.code.instructions.length ∧ ∀ q ∈ l,
          q ∈ {q : Point | ∃ p : Point, p.flow = q ∧ p.frame ∈ (s N).points.map Point.frame ∧
            p.Within (fun d => d.toList.length ≤ depth + size) bound}} ×ˢ
        {l : List Nat | l.length ≤ c.code.instructions.length ∧ ∀ i ∈ l,
          i ∈ {i | i ≤ c.code.instructions.length}}) := by
    intro n hn
    obtain ⟨hframe, hwithin⟩ := hN n hn
    refine ⟨⟨?_, fun q hq => ?_⟩, ?_, fun i hi => ?_⟩
    · rw [List.length_map, hlength]
    · obtain ⟨p, hp, rfl⟩ := List.mem_map.1 hq
      refine ⟨p, rfl, hframe ▸ List.mem_map.2 ⟨p, hp, rfl⟩, ?_⟩
      have h := hwithin p hp
      refine ⟨fun t ht d hd => ?_, h.pre, h.post, h.narrowing⟩
      rw [d.length_eq]
      -- the depth is bounded by hypothesis and the element by what merging can make
      exact Nat.add_le_add (hdepth n p hp t ht d hd) (h.types t ht d hd)
    · rw [← hlength n]
      exact length_queue_le ((hs n).sound hc)
    · have hlt := ((hs n).sound hc).range i hi
      rw [hlength] at hlt
      exact Nat.le_of_lt hlt
  -- infinitely many steps, finitely many pairs of points and queue
  obtain ⟨i, -, j, -, hne, heq⟩ :=
    (Set.Ici_infinite N).exists_ne_map_eq_of_mapsTo hmaps (hpoints.prod hqueues)
  obtain ⟨hflow, hqueue⟩ := Prod.mk.inj heq
  rcases Nat.lt_or_gt_of_ne hne with hlt | hlt
  · exact ⟨i, j, hlt, hflow, hqueue⟩
  · exact ⟨j, i, hlt, hflow.symm, hqueue.symm⟩

end

/-! ## When a run ends -/

/-- The run comes back to where it was. -/
def Recurs (c : MethodContext) (memo : Memo) : Prop :=
  ∃ i j s t, i < j ∧ run c i (initial c memo) = (.unfinished, s) ∧
    run c j (initial c memo) = (.unfinished, t) ∧ Alike s t

/-- Arrays get no deeper than some depth. -/
def Shallow (c : MethodContext) (memo : Memo) : Prop :=
  ∃ depth, ∀ count s, run c count (initial c memo) = (.unfinished, s) →
    ∀ p ∈ s.points, ∀ t ∈ p.types, t.In fun d => d.dimensions ≤ depth

section

variable {c : MethodContext} {memo : Memo}

/-- Finitely many steps lead to arrays of bounded depth. -/
theorem exists_depth (c : MethodContext) (memo : Memo) (k : Nat) :
    ∃ depth, ∀ count s, count < k → Steps c (initial c memo) count s →
      ∀ p ∈ s.points, ∀ t ∈ p.types, t.In fun d => d.dimensions ≤ depth := by
  induction k with
  | zero => exact ⟨0, fun _ _ h => nomatch h⟩
  | succ k ih =>
    obtain ⟨depth, hdepth⟩ := ih
    obtain ⟨last, hlast⟩ := exists_bound Descriptor.dimensions
      ((run c k (initial c memo)).2.points.flatMap fun p => p.types.filterMap (·.cls))
    refine ⟨max depth last, fun count s hcount hs p hp t ht d hd => ?_⟩
    rcases Nat.lt_succ_iff_lt_or_eq.1 hcount with hlt | rfl
    · exact Nat.le_trans (hdepth count s hlt hs p hp t ht d hd) (Nat.le_max_left _ _)
    · refine Nat.le_trans (hlast d ?_) (Nat.le_max_right _ _)
      rw [run_unfinished_iff.2 hs]
      exact List.mem_flatMap.2 ⟨p, hp, List.mem_filterMap.2 ⟨t, ht, hd⟩⟩

/-- A run that ended has no steps after the last. -/
theorem Steps.le_of_ended (hc : c.Built) {k n : Nat} {t u v : Session} {e : Ending}
    (ht : Steps c (Session.initial c memo) k t) (hend : step c t = .ended e v)
    (hu : Steps c (Session.initial c memo) n u) : n ≤ k := by
  by_contra hlt
  obtain ⟨s, s', hs, hstep, -⟩ := hu.before hc (i := k) (by omega)
  cases hs.unique ht
  cases hend.symm.trans hstep

theorem ends_iff (hc : c.Built) (hmemo : memo.busy = []) :
    (∃ count e s, run c count (initial c memo) = (e, s) ∧ e ≠ .endless ∧ e ≠ .unfinished) ↔
      (∀ count, (run c count (initial c memo)).1 ≠ .endless) ∧ ¬Recurs c memo ∧
        Shallow c memo := by
  constructor
  · rintro ⟨count, e, s, hrun, hendless, hunfinished⟩
    obtain ⟨k, t, -, hsteps, hend⟩ := run_inv hrun hunfinished
    refine ⟨fun n hn => ?_, ?_, ?_⟩
    · obtain ⟨k', t', -, hsteps', hend'⟩ := run_inv (e := .endless)
        (s := (run c n (initial c memo)).2) (by rw [← hn]) (fun h => nomatch h)
      have hk : k' = k := Nat.le_antisymm (hsteps.le_of_ended hc hend hsteps')
        (hsteps'.le_of_ended hc hend' hsteps)
      subst hk
      cases hsteps.unique hsteps'
      cases hend.symm.trans hend'
      exact hendless rfl
    -- one that comes back would make more steps than it did
    · rintro ⟨i, j, s', t', hij, hs, ht, halike⟩
      obtain ⟨u, hu⟩ := (run_unfinished_iff.1 hs).recurs hc hmemo hij (run_unfinished_iff.1 ht)
        halike (k + 1)
      have hle := hsteps.le_of_ended hc hend hu
      omega
    · obtain ⟨depth, hdepth⟩ := exists_depth c memo (k + 1)
      refine ⟨depth, fun n u hu => ?_⟩
      have hsteps' := run_unfinished_iff.1 hu
      exact hdepth n u (Nat.lt_succ_of_le (hsteps.le_of_ended hc hend hsteps')) hsteps'
  · rintro ⟨hendless, hrecurs, depth, hdepth⟩
    by_contra hnot
    push Not at hnot
    have hrun (n : Nat) :
        run c n (initial c memo) = (.unfinished, (run c n (initial c memo)).2) := by
      have hunfinished := hnot n (run c n (initial c memo)).1 (run c n (initial c memo)).2 rfl
        (hendless n)
      rw [← hunfinished]
    obtain ⟨i, j, hij, halike⟩ := alike_of_never_ends hc
      (s := fun n => (run c n (initial c memo)).2) (fun n => run_unfinished_iff.1 (hrun n))
      fun n => hdepth n _ (hrun n)
    exact hrecurs ⟨i, j, _, _, hij, hrun i, hrun j, halike⟩

/-- Unless some class extends an array, arrays get no deeper and deeper. -/
theorem shallow_of_classes (hc : c.Built)
    (hclasses : ∀ d ∈ c.path.superclasses, d.isArray = false) : Shallow c memo := by
  by_cases hnever : ∀ n, ∃ s, Steps c (initial c memo) n s
  · choose s hs using hnever
    obtain ⟨N, size, bound, hN⟩ := exists_bounded hc hs
      fun bound _ => c.path.dimensions_closed hclasses bound
    obtain ⟨depth, hdepth⟩ := exists_depth c memo N
    refine ⟨max depth size, fun n u hu p hp t ht d hd => ?_⟩
    have hsteps := run_unfinished_iff.1 hu
    rcases Nat.lt_or_ge n N with hlt | hle
    · exact Nat.le_trans (hdepth n u hlt hsteps p hp t ht d hd) (Nat.le_max_left _ _)
    · cases hsteps.unique (hs n)
      exact Nat.le_trans (((hN n hle).2 p hp).types t ht d hd) (Nat.le_max_right _ _)
  · push Not at hnever
    obtain ⟨k, hk⟩ := hnever
    obtain ⟨depth, hdepth⟩ := exists_depth c memo k
    refine ⟨depth, fun n u hu => ?_⟩
    have hsteps := run_unfinished_iff.1 hu
    refine hdepth n u ?_ hsteps
    by_contra hle
    rcases Nat.lt_or_eq_of_le (Nat.le_of_not_lt hle) with hlt | rfl
    · obtain ⟨s, -, hs, -⟩ := hsteps.before hc hlt
      exact hk s hs
    · exact hk u hsteps

end

end Session

/-- An analysis ends, with a result or a failure, exactly if every lookup ends,
    the session never comes back to where it was, and the depth of arrays is
    bounded; which it is unless some class extends an array. -/
theorem analysis_ends_iff {path : ClassPath} {cls : ClassDef} {m : MethodDef} {memo : Memo}
    {c : MethodContext} (hmemo : memo.busy = []) (hc : MethodContext.of path cls m = .ok c) :
    ((∃ steps r memo', (path.analyzeWithin cls m fun _ => steps).run memo = (some r, memo')) ↔
      (∀ steps, (Session.run c steps (Session.initial c memo)).1 ≠ .endless) ∧
        ¬Session.Recurs c memo ∧ Session.Shallow c memo) ∧
      ((∀ d ∈ path.superclasses, d.isArray = false) → Session.Shallow c memo) := by
  have hshallow (hclasses : ∀ d ∈ path.superclasses, d.isArray = false) :
      Session.Shallow c memo := by
    rw [← (MethodContext.of_inv hc).1] at hclasses
    exact Session.shallow_of_classes (.of hc) hclasses
  rw [← Session.ends_iff (.of hc) hmemo]
  refine ⟨⟨?_, ?_⟩, hshallow⟩
  · rintro ⟨steps, r, memo', h⟩
    rcases hrun : Session.run c steps (Session.initial c memo) with ⟨e, s⟩
    rw [ClassPath.analyzeWithin_eq hc (fun _ => steps) memo hrun] at h
    refine ⟨steps, e, s, hrun, ?_, ?_⟩
    · rintro rfl
      cases h
    · rintro rfl
      cases h
  · rintro ⟨steps, e, s, hrun, hendless, hunfinished⟩
    have h := ClassPath.analyzeWithin_eq hc (fun _ => steps) memo hrun
    cases e with
    | finished => exact ⟨steps, _, _, h⟩
    | failed f => exact ⟨steps, _, _, h⟩
    | endless => exact absurd rfl hendless
    | unfinished => exact absurd rfl hunfinished

/-! ## Loops that settle and loops that do not -/

namespace Sample

/-- Counts up in a loop. -/
def counter : MethodDef :=
  { name := "count", prototype := ⟨[], "V"⟩, access := ⟨9⟩
    code := some
      { registers := 1
        instructions := [
          { opcode := .const4, registers := [0], literal := some 0 },
          { opcode := .addIntLit8, registers := [0, 0], literal := some 1 },
          { opcode := .goto, target := some (-2) }] } }

/-- Shifts a number right in a loop. The shift makes less of an integer than of a
    byte, so the type before it goes back and forth. -/
def shifter : MethodDef :=
  { name := "shift", prototype := ⟨[], "V"⟩, access := ⟨9⟩
    code := some
      { registers := 1
        instructions := [
          { opcode := .const16, registers := [0], literal := some (-5) },
          { opcode := .ushrIntLit8, registers := [0, 0], literal := some 25 },
          { opcode := .goto, target := some (-2) }] } }

def looping : ClassDef := classDef "LLooping;" Descriptor.object [] [counter, shifter]

end Sample

open Sample in
theorem counter_ends :
    ∃ c, MethodContext.of (path [looping] ⟨[]⟩) looping counter = .ok c ∧
      (∀ d ∈ (path [looping] ⟨[]⟩).superclasses, d.isArray = false) ∧
      (∀ steps, (Session.run c steps (Session.initial c {})).1 ≠ .endless) ∧
      ¬Session.Recurs c {} ∧ Session.Shallow c {} := by
  have hchecks : (path [looping] ⟨[]⟩).checks looping counter 20 (fun _ _ _ => true) = true := by
    decide +kernel
  obtain ⟨c, a, memo', hc, h, -⟩ := ClassPath.checks_inv hchecks
  exact ⟨c, hc, by decide, (analysis_ends_iff rfl hc).1.1 ⟨20, .ok a, memo', h⟩⟩

open Sample in
/-- After seven steps the shifter is where it was after three. -/
theorem shifter_never_ends :
    ∃ c, MethodContext.of (path [looping] ⟨[]⟩) looping shifter = .ok c ∧
      ¬∃ steps r memo', ((path [looping] ⟨[]⟩).analyzeWithin looping shifter
        fun _ => steps).run {} = (some r, memo') := by
  have hchecks : (match MethodContext.of (path [looping] ⟨[]⟩) looping shifter with
      | .ok c =>
        decide ((Session.run c 3 (Session.initial c {})).1 = .unfinished ∧
          (Session.run c 7 (Session.initial c {})).1 = .unfinished ∧
          (Session.run c 3 (Session.initial c {})).2.Alike
            (Session.run c 7 (Session.initial c {})).2)
      | .error _ => false) = true := by
    decide +kernel
  cases hc : MethodContext.of (path [looping] ⟨[]⟩) looping shifter with
  | error e =>
    rw [hc] at hchecks
    cases hchecks
  | ok c =>
    rw [hc] at hchecks
    obtain ⟨h₃, h₇, halike⟩ := of_decide_eq_true hchecks
    refine ⟨c, rfl, ?_⟩
    rintro ⟨steps, r, memo', h⟩
    have hs : Session.Steps c (Session.initial c {}) 3 _ :=
      Session.run_unfinished_iff.1 (Prod.ext h₃ rfl)
    have ht : Session.Steps c (Session.initial c {}) 7 _ :=
      Session.run_unfinished_iff.1 (Prod.ext h₇ rfl)
    obtain ⟨u, hu⟩ := hs.recurs (.of hc) rfl (by decide) ht halike steps
    rw [ClassPath.analyzeWithin_eq hc (fun _ => steps) {} (Session.run_unfinished_iff.2 hu)] at h
    cases h

end SymbolicDex
