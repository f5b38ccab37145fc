import SymbolicDex.Proofs.Hierarchy.AccessibleMembers
import SymbolicDex.Proofs.Hierarchy.Termination

/- The walk up to a class that the accessor may name. It is the one walk over the
   hierarchy that marks nothing, so it goes round for good where hidden classes
   extend each other in a circle, and only there. The definition that runs notices
   this after as many steps as there are definitions (`Stop.endless`); here the walk
   is said without that bound, as a relation (`Seeks`) and as an infinite climb
   (`Endless`).

   What is proved:
     1. `endless_iff_circle`: a climb without end is one into a circle.
     2. `accessibleFrom_eq_iff`, `accessibleFrom_endless_iff`: the bound does not show
        in the walk.
     3. `resolveField_endless_iff`, `resolveMethod_endless_iff`: which lookups go on
        forever.
     4. `lookups_end_unless_circling`: all others end, after any history;
        `circle_lookups_endless` has two that do not. -/
namespace SymbolicDex

namespace ClassPath

variable (p : ClassPath) (accessor : Descriptor) (member : String)

/-! ## Climbing -/

/-- `d` is defined, hidden from the accessor, and extends `s`. -/
def Climbs (d s : Descriptor) : Prop :=
  ∃ c, p.definition d = .ok c ∧ c.accessibleFrom accessor = false ∧ c.superclass = some s

/-- The climb from `d` goes on and on. -/
def Endless (d : Descriptor) : Prop :=
  ∃ walk : Nat → Descriptor, walk 0 = d ∧ ∀ k, p.Climbs accessor (walk k) (walk (k + 1))

/-- The climb from `d` comes to a class that is above itself. -/
def Circles (d : Descriptor) : Prop :=
  ∃ e, Relation.ReflTransGen (p.Climbs accessor) d e ∧ Relation.TransGen (p.Climbs accessor) e e

/-- The climb from `d` ends, at a class that can be named or with a failure. -/
inductive Seeks : Descriptor → Except AnalysisFailure ClassDef → Prop where
  | missing {d : Descriptor} {e : MissingClass} (h : p.definition d = .error e) :
      Seeks d (.error (.ofMissing e))
  | found {d : Descriptor} {c : ClassDef} (h : p.definition d = .ok c)
      (hvisible : c.accessibleFrom accessor = true) : Seeks d (.ok c)
  | top {d : Descriptor} {c : ClassDef} (h : p.definition d = .ok c)
      (hhidden : c.accessibleFrom accessor = false) (htop : c.superclass = none) :
      Seeks d (.error (.of (.inaccessible member)))
  | up {d s : Descriptor} {r : Except AnalysisFailure ClassDef} (h : p.Climbs accessor d s)
      (hs : Seeks s r) : Seeks d r

variable {p accessor member} {d s : Descriptor} {c c' : ClassDef} {count : Nat}

theorem Climbs.unique {s' : Descriptor} (h : p.Climbs accessor d s)
    (h' : p.Climbs accessor d s') : s = s' := by
  obtain ⟨c, hc, -, hs⟩ := h
  obtain ⟨c', hc', -, hs'⟩ := h'
  cases hc.symm.trans hc'
  exact Option.some.inj (hs.symm.trans hs')

theorem Climbs.mem_definedNames (h : p.Climbs accessor d s) : d ∈ p.definedNames := by
  obtain ⟨c, hc, -, -⟩ := h
  unfold definition at hc
  split at hc
  · next hd => exact ClassPath.mem_definedNames hd
  · cases hc

/-- From a class whose climb circles there is a next one, and its climb does too. -/
theorem Circles.step (h : p.Circles accessor d) :
    ∃ s, p.Climbs accessor d s ∧ p.Circles accessor s := by
  obtain ⟨e, hup, hround⟩ := h
  rcases Relation.ReflTransGen.cases_head hup with rfl | ⟨s, hs, hup⟩
  · obtain ⟨s, hs, hback⟩ := Relation.TransGen.head'_iff.1 hround
    exact ⟨s, hs, d, hback, hround⟩
  · exact ⟨s, hs, e, hup, hround⟩

theorem Circles.endless (h : p.Circles accessor d) : p.Endless accessor d := by
  choose next hnext hcircles using fun e : { e // p.Circles accessor e } => e.2.step
  let walk : Nat → { e // p.Circles accessor e } :=
    Nat.rec ⟨d, h⟩ fun _ e => ⟨next e, hcircles e⟩
  exact ⟨fun k => (walk k).1, rfl, fun k => hnext (walk k)⟩

/-- A climb of more steps than there are definitions comes to a class twice. -/
theorem circles_of_climb {walk : Nat → Descriptor}
    (h : ∀ k ≤ p.size, p.Climbs accessor (walk k) (walk (k + 1))) :
    p.Circles accessor (walk 0) := by
  have hreach (i n : Nat) (hn : i + n ≤ p.size + 1) :
      Relation.ReflTransGen (p.Climbs accessor) (walk i) (walk (i + n)) := by
    induction n with
    | zero => exact .refl
    | succ n ih => exact (ih (by omega)).tail (h (i + n) (by omega))
  have hnames : ∀ k ∈ Finset.range (p.size + 1), walk k ∈ p.definedNames.toFinset := by
    intro k hk
    have hk := Finset.mem_range.1 hk
    exact List.mem_toFinset.2 (h k (by omega)).mem_definedNames
  have hcard : p.definedNames.toFinset.card < (Finset.range (p.size + 1)).card := by
    have hle := List.toFinset_card_le p.definedNames
    rw [length_definedNames] at hle
    rw [Finset.card_range]
    omega
  obtain ⟨i, hi, j, hj, hne, heq⟩ :=
    Finset.exists_ne_map_eq_of_card_lt_of_maps_to hcard hnames
  have hbounds := And.intro (Finset.mem_range.1 hi) (Finset.mem_range.1 hj)
  obtain ⟨i, j, hij, hj, heq⟩ : ∃ i j, i < j ∧ j ≤ p.size ∧ walk i = walk j := by
    rcases Nat.lt_or_gt_of_ne hne with hlt | hlt
    · exact ⟨i, j, hlt, by omega, heq⟩
    · exact ⟨j, i, hlt, by omega, heq.symm⟩
  refine ⟨walk i, by simpa using hreach 0 i (by omega), ?_⟩
  have hround := hreach (i + 1) (j - (i + 1)) (by omega)
  rw [Nat.add_sub_cancel' hij, ← heq] at hround
  exact .head' (h i (by omega)) hround

theorem endless_iff_circle : p.Endless accessor d ↔ p.Circles accessor d := by
  constructor
  · rintro ⟨walk, rfl, hwalk⟩
    exact circles_of_climb fun k _ => hwalk k
  · exact Circles.endless

/-! ## The walk with a bound -/

theorem firstAccessible_hidden (hhidden : c.accessibleFrom accessor = false)
    (hs : c.superclass = some s) (hc' : p.definition s = .ok c') :
    p.firstAccessible accessor member (count + 1) c =
      p.firstAccessible accessor member count c' := by
  simp [firstAccessible, hhidden, hs, hc']

/-- What the bounded walk comes to: the end of the climb, or its first steps. -/
theorem firstAccessible_cases (hc : p.definition d = .ok c) :
    (∃ r, p.Seeks accessor member d r ∧
      p.firstAccessible accessor member count c = r.mapError .failed) ∨
    (p.firstAccessible accessor member count c = .error .endless ∧
      ∃ walk : Nat → Descriptor, walk 0 = d ∧
        ∀ k < count, p.Climbs accessor (walk k) (walk (k + 1))) := by
  induction count generalizing d c with
  | zero => exact .inr ⟨rfl, fun _ => d, rfl, fun k hk => by omega⟩
  | succ count ih =>
    cases hvisible : c.accessibleFrom accessor with
    | true => exact .inl ⟨.ok c, .found hc hvisible, by simp [firstAccessible, hvisible]; rfl⟩
    | false =>
      cases hs : c.superclass with
      | none =>
        refine .inl ⟨_, .top hc hvisible hs, ?_⟩
        simp [firstAccessible, hvisible, hs]
        rfl
      | some s =>
        have hclimb : p.Climbs accessor d s := ⟨c, hc, hvisible, hs⟩
        cases hc' : p.definition s with
        | error e =>
          refine .inl ⟨_, .up hclimb (.missing hc'), ?_⟩
          simp [firstAccessible, hvisible, hs, hc']
          rfl
        | ok c' =>
          rw [firstAccessible_hidden hvisible hs hc']
          rcases ih hc' with ⟨r, hr, heq⟩ | ⟨heq, walk, hstart, hwalk⟩
          · exact .inl ⟨r, .up hclimb hr, heq⟩
          · refine .inr ⟨heq, fun k => k.casesOn d walk, rfl, ?_⟩
            intro k hk
            cases k with
            | zero =>
              show p.Climbs accessor d (walk 0)
              rw [hstart]
              exact hclimb
            | succ k => exact hwalk k (by omega)

theorem Seeks.not_circles {r : Except AnalysisFailure ClassDef}
    (h : p.Seeks accessor member d r) : ¬ p.Circles accessor d := by
  induction h with
  | missing h =>
    intro hcircles
    obtain ⟨s, ⟨c, hc, -, -⟩, -⟩ := hcircles.step
    cases h.symm.trans hc
  | found h hvisible =>
    intro hcircles
    obtain ⟨s, ⟨c, hc, hhidden, -⟩, -⟩ := hcircles.step
    cases h.symm.trans hc
    cases hvisible.symm.trans hhidden
  | top h _ htop =>
    intro hcircles
    obtain ⟨s, ⟨c, hc, -, hs⟩, -⟩ := hcircles.step
    cases h.symm.trans hc
    cases htop.symm.trans hs
  | up h _ ih =>
    intro hcircles
    obtain ⟨s, hs, hcircles⟩ := hcircles.step
    cases h.unique hs
    exact ih hcircles

theorem Seeks.unique {r r' : Except AnalysisFailure ClassDef}
    (h : p.Seeks accessor member d r) (h' : p.Seeks accessor member d r') : r = r' := by
  induction h generalizing r' with
  | missing h => cases h' <;> simp_all [Climbs]
  | found h hvisible => cases h' <;> simp_all [Climbs]
  | top h hhidden htop => cases h' <;> simp_all [Climbs]
  | up h _ ih =>
    cases h' with
    | up h' hs' =>
      cases h.unique h'
      exact ih hs'
    | _ => simp_all [Climbs]

theorem accessibleFrom_missing {e : MissingClass} (h : p.definition d = .error e) (m : Memo) :
    (p.accessibleFrom accessor member d).run.run m = (.error (.failed (.ofMissing e)), m) := by
  unfold accessibleFrom
  rw [h]
  rfl

theorem accessibleFrom_defined (h : p.definition d = .ok c) (m : Memo) :
    (p.accessibleFrom accessor member d).run.run m =
      (p.firstAccessible accessor member (p.size + 1) c, m) := by
  have hknown : Lookup.known (p.definition d) = pure c := by
    rw [h]
    rfl
  unfold accessibleFrom
  rw [hknown, pure_bind]
  cases p.firstAccessible accessor member (p.size + 1) c <;> rfl

/-- The walk ends as the climb does, or it says that the climb has no end. -/
theorem accessibleFrom_cases (m : Memo) :
    (∃ r, p.Seeks accessor member d r ∧
      ((p.accessibleFrom accessor member d).run.run m).1 = r.mapError .failed) ∨
    (((p.accessibleFrom accessor member d).run.run m).1 = .error .endless ∧
      p.Circles accessor d) := by
  cases hc : p.definition d with
  | error e =>
    rw [accessibleFrom_missing hc]
    exact .inl ⟨_, .missing hc, rfl⟩
  | ok c =>
    rw [accessibleFrom_defined hc]
    refine (firstAccessible_cases hc).imp_right ?_
    rintro ⟨heq, walk, rfl, hwalk⟩
    exact ⟨heq, circles_of_climb fun k hk => hwalk k (Nat.lt_succ_of_le hk)⟩

theorem accessibleFrom_eq_iff {r : Except AnalysisFailure ClassDef} {m : Memo} :
    ((p.accessibleFrom accessor member d).run.run m).1 = r.mapError .failed ↔
      p.Seeks accessor member d r := by
  constructor
  · intro h
    rcases accessibleFrom_cases m with ⟨r', hr', heq⟩ | ⟨heq, -⟩
    · rw [heq] at h
      cases r <;> cases r' <;> cases h <;> exact hr'
    · rw [heq] at h
      cases r <;> cases h
  · intro h
    rcases accessibleFrom_cases m with ⟨r', hr', heq⟩ | ⟨-, hcircles⟩
    · rw [h.unique hr']
      exact heq
    · exact absurd hcircles h.not_circles

theorem accessibleFrom_endless_iff {m : Memo} :
    ((p.accessibleFrom accessor member d).run.run m).1 = .error .endless ↔
      p.Endless accessor d := by
  rw [endless_iff_circle]
  rcases accessibleFrom_cases m with ⟨r, hr, heq⟩ | ⟨heq, hcircles⟩
  · rw [heq]
    constructor
    · intro h
      cases r <;> cases h
    · intro hcircles
      exact absurd hcircles hr.not_circles
  · exact ⟨fun _ => hcircles, fun _ => heq⟩

/-! ## Lookups without an end -/

section Lookups

variable {α β : Type} {m : Memo}

theorem endless_bind_iff {x : Lookup α} {f : α → Lookup β} :
    ((x >>= f).run.run m).1 = .error .endless ↔
      (x.run.run m).1 = .error .endless ∨
        ∃ a, (x.run.run m).1 = .ok a ∧
          ((f a).run.run (x.run.run m).2).1 = .error .endless := by
  rw [ExceptT.run_bind, Query.run_bind]
  cases (x.run.run m).1 with
  | ok a => simp
  | error e =>
    show (Except.error e : Except Stop β) = .error .endless ↔ _
    simp

theorem known_not_endless {x : Except MissingClass α} :
    ((Lookup.known x).run.run m).1 ≠ .error .endless := by
  intro h
  cases x <;> cases h

theorem ask_not_endless {q : Query (Except MissingClass α)} :
    ((Lookup.ask q).run.run m).1 ≠ .error .endless := by
  intro h
  rcases endless_bind_iff.1 h with h | ⟨r, -, h⟩
  · cases h
  · exact known_not_endless h

theorem ask_of_ok {q : Query (Except MissingClass α)} {a : α} (h : (q.run m).1 = .ok a) :
    ((Lookup.ask q).run.run m).1 = .ok a := by
  have hrun : (Lookup.ask q).run.run m = (Lookup.known (q.run m).1).run.run (q.run m).2 := rfl
  rw [hrun, h]
  rfl

variable (p accessor) in
/-- The class is defined and the accessor may not name it. -/
def HiddenFrom (d : Descriptor) : Prop :=
  ∃ c, p.definition d = .ok c ∧ c.accessibleFrom accessor = false

/-- Naming a member goes on forever if its class is hidden and the climb from the
    object does. -/
theorem named_endless_iff {own : β} {owner object : Descriptor}
    (memberOf : Descriptor → Query (Except MissingClass (Option α)))
    {finish : ClassDef → Option α → Lookup β}
    (hfinish : ∀ c r m, ((finish c r).run.run m).1 ≠ .error .endless) :
    ((do
      let o ← Lookup.known (p.definition owner)
      if o.accessibleFrom accessor then return own
      else
        let c ← p.accessibleFrom accessor member object
        let r ← Lookup.ask (memberOf c.descriptor)
        finish c r : Lookup β).run.run m).1 = .error .endless ↔
      p.HiddenFrom accessor owner ∧ p.Endless accessor object := by
  have hwalk {m : Memo} : ((do
      let c ← p.accessibleFrom accessor member object
      let r ← Lookup.ask (memberOf c.descriptor)
      finish c r : Lookup β).run.run m).1 = .error .endless ↔ p.Endless accessor object := by
    rw [endless_bind_iff, accessibleFrom_endless_iff]
    refine or_iff_left ?_
    rintro ⟨c, -, h⟩
    rcases endless_bind_iff.1 h with h | ⟨r, -, h⟩
    · exact ask_not_endless h
    · exact hfinish _ _ _ h
  rw [endless_bind_iff, or_iff_right known_not_endless]
  constructor
  · rintro ⟨o, ho, h⟩
    split at h
    · cases h
    next hhidden => exact ⟨⟨o, (known_ok ho).1, by simpa using hhidden⟩, hwalk.1 h⟩
  · rintro ⟨⟨o, ho, hhidden⟩, hendless⟩
    refine ⟨o, by rw [ho]; rfl, ?_⟩
    rw [hhidden]
    exact hwalk.2 hendless

theorem resolveField_endless_iff {object : Descriptor} {n : Nat} :
    ((p.resolveField accessor object n).run.run m).1 = .error .endless ↔
      ∃ field, ((p.fieldAt object n).run m).1 = .ok (some field) ∧
        p.HiddenFrom accessor field.owner ∧ p.Endless accessor object := by
  unfold resolveField
  rw [endless_bind_iff, or_iff_right ask_not_endless]
  constructor
  · rintro ⟨r, hr, h⟩
    cases r with
    | none => cases h
    | some field =>
      dsimp only at h
      refine ⟨field, (ask_ok hr).1, (named_endless_iff (p.fieldAt · n) ?_).1 h⟩
      intro c r m hend
      cases r <;> cases hend
  · rintro ⟨field, hfield, h⟩
    refine ⟨some field, ask_of_ok hfield, ?_⟩
    dsimp only
    refine (named_endless_iff (p.fieldAt · n) ?_).2 h
    intro c r m hend
    cases r <;> cases hend

theorem resolveMethod_endless_iff {object : Descriptor} {n : Nat} {isSuper : Bool} :
    ((p.resolveMethod accessor object n isSuper).run.run m).1 = .error .endless ↔
      (isSuper || object.isArray) = false ∧
        ∃ e, ((p.methodAt object n).run m).1 = .ok (some e) ∧
          p.HiddenFrom accessor e.method.owner ∧ p.Endless accessor object := by
  unfold resolveMethod
  rw [endless_bind_iff, or_iff_right ask_not_endless]
  constructor
  · rintro ⟨r, hr, h⟩
    cases r with
    | none => cases h
    | some e =>
      dsimp only at h
      split at h
      · cases h
      next hwalks =>
        refine ⟨by simpa using hwalks, e, (ask_ok hr).1,
          (named_endless_iff (p.methodAt · n) ?_).1 h⟩
        intro c r m hend
        cases r <;> cases hend
  · rintro ⟨hwalks, e, he, h⟩
    refine ⟨some e, ask_of_ok he, ?_⟩
    simp only [hwalks, Bool.false_eq_true, if_false]
    refine (named_endless_iff (p.methodAt · n) ?_).2 h
    intro c r m hend
    cases r <;> cases hend

end Lookups

open Query in
/-- After any history, a lookup of a field or a method gets all the tables that it
    asks for and leaves no class busy. The walk up from the object ends with a class
    or a failure unless the climb has no end, which means that it comes into a circle
    of hidden classes; and a lookup goes on forever exactly if its member is there,
    belongs to a hidden class, and the walk, made then, does. -/
theorem lookups_end_unless_circling (p : ClassPath) (history : List Question)
    (accessor object : Descriptor) (n : Nat) (isSuper : Bool) :
    let m := p.memoAfterAsking history
    p.Grounded p.layoutWithin (TableKind.layout.step p) ∧
      p.Grounded p.vtableWithin (TableKind.vtable.step p) ∧
      Returns p (p.resolveField accessor object n).run m ∧
      Returns p (p.resolveMethod accessor object n isSuper).run m ∧
      (∀ member m',
        (∀ r, ((p.accessibleFrom accessor member object).run.run m').1 = r.mapError .failed ↔
            p.Seeks accessor member object r) ∧
          (((p.accessibleFrom accessor member object).run.run m').1 = .error .endless ↔
            p.Endless accessor object)) ∧
      (p.Endless accessor object ↔ p.Circles accessor object) ∧
      (((p.resolveField accessor object n).run.run m).1 = .error .endless ↔
        ∃ field, ((p.fieldAt object n).run m).1 = .ok (some field) ∧
          p.HiddenFrom accessor field.owner ∧ p.Endless accessor object) ∧
      (((p.resolveMethod accessor object n isSuper).run.run m).1 = .error .endless ↔
        (isSuper || object.isArray) = false ∧
          ∃ e, ((p.methodAt object n).run m).1 = .ok (some e) ∧
            p.HiddenFrom accessor e.method.owner ∧ p.Endless accessor object) := by
  intro m
  refine ⟨p.layout_grounded, p.vtable_grounded, ?_, ?_, ?_, endless_iff_circle,
    resolveField_endless_iff, resolveMethod_endless_iff⟩
  · exact returns_after (p.ask_composed (.resolveField accessor object n))
      (p.resolveField_steady accessor object n).grows history
  · exact returns_after (p.ask_composed (.resolveMethod accessor object n isSuper))
      (p.resolveMethod_steady accessor object n isSuper).grows history
  · exact fun _ _ => ⟨fun _ => accessibleFrom_eq_iff, accessibleFrom_endless_iff⟩

end ClassPath

namespace Sample

/-- Two hidden classes that extend each other. -/
def hiddenCircle : ClassPath :=
  pathOf [named Descriptor.object none 1 [] [],
    named "Lp/A;" (some "Lp/B;") 0 [⟨"a", "I", ⟨1⟩⟩] [getter "a"],
    named "Lp/B;" (some "Lp/A;") 0 [⟨"b", "I", ⟨1⟩⟩] [getter "b"]]

end Sample

open Sample in
/-- The tables of the two classes are there, and the walk from one to the other and
    back never ends. -/
theorem circle_lookups_endless :
    ((hiddenCircle.fieldAt "Lp/A;" 8).run (hiddenCircle.memoAfterAsking [])).1 =
        .ok (some ⟨"Lp/B;", "b", "I"⟩) ∧
      ((hiddenCircle.resolveField "Lq/T;" "Lp/A;" 8).run.run
        (hiddenCircle.memoAfterAsking [])).1 = .error .endless ∧
      ((hiddenCircle.resolveMethod "Lq/T;" "Lp/A;" 0 false).run.run
        (hiddenCircle.memoAfterAsking [])).1 = .error .endless ∧
      hiddenCircle.Endless "Lq/T;" "Lp/A;" := by
  have hfield : ((hiddenCircle.resolveField "Lq/T;" "Lp/A;" 8).run.run
      (hiddenCircle.memoAfterAsking [])).1 = .error .endless := by decide +kernel
  obtain ⟨-, -, -, hendless⟩ := ClassPath.resolveField_endless_iff.1 hfield
  exact ⟨by decide +kernel, hfield, by decide +kernel, hendless⟩

end SymbolicDex
