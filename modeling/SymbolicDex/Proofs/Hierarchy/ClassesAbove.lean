import SymbolicDex.Hierarchy.Tables
import Mathlib.Data.List.Perm.Subperm
import Mathlib.Logic.Relation

/- The classes above a class, in the sense in which tables are inherited: an
   array or the unknown class stands for Object, and for virtual methods so does
   a missing class. There is at most one class directly above another, so the
   only thing that can go wrong is that the walk up does not end.

   What is proved:
     1. `Settled.not_above_self`: a class from which the walk ends is not above
        itself.
     2. `length_le_size`: distinct classes with tables are no more than there
        are definitions.
     3. `Rooted.settled`, `settled_of_acyclic`: the walk ends if the superclasses
        end with a root, and it ends for all classes if none is above itself. -/
namespace SymbolicDex

theorem ClassSet.find?_descriptor {set : ClassSet} {d : Descriptor} {c : ClassDef}
    (h : set.find? d = some c) : c.descriptor = d := by
  have hkey := List.find?_some h
  simpa using hkey

namespace ClassPath

variable (p : ClassPath)

/-- Whether tables are computed for the class. -/
def hasTables (d : Descriptor) : Bool := (p.classDefinition d).isOk

/-- The class whose table that of `d` is finished from: the superclass, Object
    in place of an array or the unknown class, and with `fallback` also in place
    of a missing class. -/
def above? (fallback : Bool) (d : Descriptor) : Option Descriptor :=
  match p.classDefinition d with
  | .error _ => none
  | .ok c =>
    match c.superclass with
    | none => none
    | some s =>
      if p.hasTables (p.tableOwner s) then some (p.tableOwner s)
      else if fallback ∧ d ≠ Descriptor.object ∧ p.hasTables Descriptor.object then
        some Descriptor.object
      else none

/-- `d` is directly below `s`. -/
def Below (fallback : Bool) (d s : Descriptor) : Prop := p.above? fallback d = some s

/-- The walk over the classes above `d` ends. -/
def Settled (fallback : Bool) (d : Descriptor) : Prop :=
  Acc (fun s d => p.Below fallback d s) d

variable {p} {fallback : Bool} {d s : Descriptor}

theorem hasTables_iff : p.hasTables d = true ↔ ∃ c, p.classDefinition d = .ok c := by
  unfold hasTables
  cases p.classDefinition d <;> simp [Except.isOk, Except.toBool]

theorem Settled.above (h : p.Settled fallback d) (hs : p.Below fallback d s) :
    p.Settled fallback s := Acc.inv h hs

/-- There is one class above, so nothing else has to end. -/
theorem Settled.of_above (hs : p.Below fallback d s) (h : p.Settled fallback s) :
    p.Settled fallback d := by
  refine Acc.intro _ fun s' hs' => ?_
  have : s' = s := Option.some.inj (hs'.symm.trans hs)
  exact this ▸ h

theorem Settled.not_above_self (h : p.Settled fallback d) :
    ¬ Relation.TransGen (p.Below fallback) d d := by
  induction h with
  | intro d _ ih =>
    intro hloop
    obtain ⟨s, hs, hback⟩ := Relation.TransGen.head'_iff.1 hloop
    -- going round from `s` instead comes back to `s`
    rcases Relation.reflTransGen_iff_eq_or_transGen.1 hback with rfl | hback
    · exact ih d hs (Relation.TransGen.single hs)
    · exact ih s hs (hback.tail hs)

theorem tableOwner_object : p.tableOwner Descriptor.object = Descriptor.object := by
  unfold tableOwner
  split <;> rfl

/-! ## Counting -/

variable (p) in
/-- The descriptors that are defined, one for each definition. -/
def definedNames : List Descriptor := p.sets.flatMap fun set => set.classes.map (·.descriptor)

theorem length_definedNames : p.definedNames.length = p.size := by
  unfold definedNames size
  induction p.sets with
  | nil => rfl
  | cons set sets ih => simp [ih, ClassSet.size]

theorem definition?_descriptor {c : ClassDef} (h : p.definition? d = some c) :
    c.descriptor = d := by
  obtain ⟨set, -, hset⟩ := List.exists_of_findSome?_eq_some h
  exact ClassSet.find?_descriptor hset

theorem mem_definedNames {c : ClassDef} (h : p.definition? d = some c) : d ∈ p.definedNames := by
  obtain ⟨set, hmem, hset⟩ := List.exists_of_findSome?_eq_some h
  refine List.mem_flatMap.2 ⟨set, hmem, List.mem_map.2 ⟨c, List.mem_of_find?_eq_some hset, ?_⟩⟩
  exact ClassSet.find?_descriptor hset

theorem definition?_of_classDefinition {c : ClassDef} (h : p.classDefinition d = .ok c) :
    p.definition? d = some c := by
  unfold classDefinition shape at h
  by_cases hu : d = Descriptor.unknown
  · simp [hu] at h
  · by_cases ha : d.isArray
    · simp [hu, ha] at h
    · cases hd : p.definition? d with
      | none => simp [hu, ha, hd] at h
      | some c' => simpa [hu, ha, hd] using h

theorem tableOwner_of_classDefinition {c : ClassDef} (h : p.classDefinition d = .ok c) : p.tableOwner d = d := by
  unfold classDefinition at h
  unfold tableOwner
  cases hs : p.shape d with
  | defined c' => rfl
  | missing => rfl
  | unknown => simp [hs] at h
  | array => simp [hs] at h

theorem length_le_size {ds : List Descriptor} (hnodup : ds.Nodup)
    (h : ∀ d ∈ ds, p.hasTables d = true) : ds.length ≤ p.size := by
  rw [← length_definedNames]
  refine (List.subperm_of_subset hnodup fun d hd => ?_).length_le
  obtain ⟨c, hc⟩ := hasTables_iff.1 (h d hd)
  exact mem_definedNames (definition?_of_classDefinition hc)

/-! ## Chains of classes that end -/

/-- The class and all above it are defined, and the last has no superclass. -/
inductive Rooted (p : ClassPath) : Descriptor → Prop
  | root {d : Descriptor} {c : ClassDef} (hc : p.classDefinition (p.tableOwner d) = .ok c)
      (hs : c.superclass = none) : Rooted p d
  | under {d s : Descriptor} {c : ClassDef} (hc : p.classDefinition (p.tableOwner d) = .ok c)
      (hs : c.superclass = some s) (above : Rooted p s) : Rooted p d

theorem Rooted.hasTables (h : p.Rooted d) : p.hasTables (p.tableOwner d) = true := by
  cases h with
  | root hc => exact hasTables_iff.2 ⟨_, hc⟩
  | under hc => exact hasTables_iff.2 ⟨_, hc⟩

theorem Rooted.above (h : p.Rooted d) {c : ClassDef} (hc : p.classDefinition d = .ok c)
    (hs : c.superclass = some s) : p.Rooted s := by
  have howner := tableOwner_of_classDefinition hc
  cases h with
  | root hc' hs' =>
    rw [howner, hc] at hc'
    cases hc'
    rw [hs'] at hs
    cases hs
  | under hc' hs' above =>
    rw [howner, hc] at hc'
    cases hc'
    rw [hs'] at hs
    exact Option.some.inj hs ▸ above

theorem below_superclass {o s : Descriptor} {c : ClassDef} (hc : p.classDefinition o = .ok c)
    (hs : c.superclass = some s) (hdefined : p.hasTables (p.tableOwner s) = true)
    (fallback : Bool) : p.Below fallback o (p.tableOwner s) := by
  simp [Below, above?, hc, hs, hdefined]

theorem Rooted.settled (h : p.Rooted d) (fallback : Bool) :
    p.Settled fallback (p.tableOwner d) := by
  induction h with
  | root hc hs =>
    refine Acc.intro _ fun s hbelow => ?_
    simp [Below, above?, hc, hs] at hbelow
  | under hc hs above ih =>
    exact Settled.of_above (below_superclass hc hs above.hasTables fallback) ih

/-- Where no class is above itself, every walk up ends: it would otherwise pass
    more classes than there are. -/
theorem settled_of_acyclic {fallback : Bool}
    (h : ∀ d, ¬ Relation.TransGen (p.Below fallback) d d) (d : Descriptor) :
    p.Settled fallback d := by
  have walk (n : Nat) (passed : List Descriptor) (d : Descriptor) (hnodup : passed.Nodup)
      (hdefined : ∀ b ∈ passed, p.hasTables b = true)
      (hbelow : ∀ b ∈ passed, Relation.TransGen (p.Below fallback) b d)
      (hn : p.size < n + passed.length) : p.Settled fallback d := by
    induction n generalizing passed d with
    | zero =>
      have := length_le_size hnodup hdefined
      omega
    | succ n ih =>
      refine Acc.intro _ fun s hs => ?_
      have hd : p.hasTables d = true := by
        cases hc : p.classDefinition d with
        | ok c => exact hasTables_iff.2 ⟨c, hc⟩
        | error e => simp [Below, above?, hc] at hs
      refine ih (d :: passed) s ?_ (List.forall_mem_cons.2 ⟨hd, hdefined⟩) ?_ ?_
      · exact List.nodup_cons.2 ⟨fun hmem => h d (hbelow d hmem), hnodup⟩
      · exact List.forall_mem_cons.2
          ⟨Relation.TransGen.single hs, fun b hb => (hbelow b hb).tail hs⟩
      · rw [List.length_cons]
        omega
  exact walk (p.size + 1) [] d List.nodup_nil (by simp) (by simp) (by simp)

end ClassPath

end SymbolicDex
