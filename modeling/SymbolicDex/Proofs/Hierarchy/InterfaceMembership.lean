import SymbolicDex.Proofs.Hierarchy.InterfaceHistory

/- Which interfaces a class has. On a class path without circular declarations
   the collected table says exactly what can be read off the declarations: an
   interface is in it if some class at or above names it as one, or if it is one
   at or above itself, and the table is complete if nothing there is missing.

   What is proved:
     1. `Lists.insert`, `Lists.insertAll`, `Lists.through`: tables are put together
        as the sets of names that they stand for.
     2. `collectInterfaces_lists`: a class lists what the classes it names list,
        what it declares and itself.
     3. `implements_iff_reachable`: the answer to a membership question, after any
        history. -/
namespace SymbolicDex

namespace InterfaceMap

variable {m : InterfaceMap} {d i : Descriptor} {e : InterfaceEntry}

theorem get?_insert :
    (m.insert d e).get? i = (m.get? i).or (if d = i then some e else none) := by
  simp only [insert]
  split
  · next h =>
    by_cases hdi : d = i
    · subst hdi
      simp only [contains] at h
      obtain ⟨e', he'⟩ := Option.isSome_iff_exists.1 h
      simp [he']
    · simp [hdi]
  · next h =>
    by_cases hdi : d = i
    · subst hdi
      have hnone : m.get? d = none := by simpa [contains] using h
      simp only [get?, Option.map_eq_none_iff] at hnone
      simp [get?, List.find?_append, hnone]
    · simp [get?, List.find?_append, hdi]

theorem get?_insertAll (es : List (Descriptor × InterfaceEntry)) :
    (m.insertAll es).get? i = (m.get? i).or ((InterfaceMap.mk es).get? i) := by
  simp only [insertAll]
  induction es generalizing m with
  | nil => simp [get?]
  | cons e es ih =>
    rw [List.foldl_cons, ih, get?_insert, Option.or_assoc]
    congr 1
    by_cases h : e.1 = i
    · simp [get?, h]
    · simp [get?, h]

theorem get?_through (es : List (Descriptor × InterfaceEntry)) :
    (InterfaceMap.mk (es.map fun e => (e.1, e.2.throughSuperclass))).get? i =
      ((InterfaceMap.mk es).get? i).map InterfaceEntry.throughSuperclass := by
  simp only [get?, List.find?_map, Option.map_map]
  rfl

end InterfaceMap

theorem InterfaceEntry.throughSuperclass_eq_unresolved {e : InterfaceEntry} :
    e.throughSuperclass = .unresolved ↔ e = .unresolved := by
  cases e <;> simp [throughSuperclass]

/-- A name that stands for a class: neither an array nor the unknown class. -/
def Descriptor.NamesClass (d : Descriptor) : Prop := d ≠ Descriptor.unknown ∧ d.isArray = false

instance (d : Descriptor) : Decidable d.NamesClass :=
  inferInstanceAs (Decidable (d ≠ Descriptor.unknown ∧ d.isArray = false))

namespace ClassPath

open Query

variable (p : ClassPath)

/-- `s` is `d` or named above it, over superclasses and interfaces. -/
def Reaches : Descriptor → Descriptor → Prop := Relation.ReflTransGen p.Declares

def Defined (d : Descriptor) : Prop := ∃ c, p.definition? d = some c

/-- A class at or above `d` names `i` as an interface. -/
def Declared (d i : Descriptor) : Prop :=
  ∃ s c, p.Reaches d s ∧ p.definition? s = some c ∧ i ∈ c.interfaces

/-- `i` is declared at or above `d`, or is itself an interface there. -/
def Offers (d i : Descriptor) : Prop :=
  p.Declared d i ∨ p.Reaches d i ∧ ∃ c, p.definition? i = some c ∧ c.isInterface = true

/-- Everything at or above `d` is defined. -/
def Whole (d : Descriptor) : Prop := ∀ s, p.Reaches d s → p.Defined s

/-- The table has the offered names, the undefined ones among them as unresolved,
    and its flag says whether `whole`. -/
structure Lists (offered : Descriptor → Prop) (whole : Prop) (t : Computed InterfaceMap) :
    Prop where
  present : ∀ i, (t.value.get? i).isSome = true ↔ offered i
  resolved : ∀ i e, t.value.get? i = some e → (e = .unresolved ↔ ¬ p.Defined i)
  complete : t.complete = true ↔ whole

variable {p} {d i s : Descriptor} {c : ClassDef}

/-! ## Names at or above a class -/

theorem Declared.reaches (h : p.Declared d i) : p.Reaches d i := by
  obtain ⟨s, c, hs, hc, hi⟩ := h
  exact hs.tail ⟨c, hc, List.mem_append_right _ hi⟩

theorem Offers.reaches : p.Offers d i → p.Reaches d i
  | .inl h => h.reaches
  | .inr h => h.1

theorem Offers.below (hs : p.Reaches d s) : p.Offers s i → p.Offers d i
  | .inl ⟨e, c, he, hc, hi⟩ => .inl ⟨e, c, hs.trans he, hc, hi⟩
  | .inr ⟨hi, hc⟩ => .inr ⟨hs.trans hi, hc⟩

theorem Whole.above (h : p.Whole d) (hs : p.Reaches d s) : p.Whole s :=
  fun e he => h e (hs.trans he)

/-- The classes named by a definition. -/
theorem declares_iff (hc : p.definition? d = some c) :
    p.Declares d s ↔ c.superclass = some s ∨ s ∈ c.interfaces := by
  constructor
  · rintro ⟨c', hc', hs⟩
    cases hc.symm.trans hc'
    simpa using hs
  · exact fun hs => ⟨c, hc, by simpa using hs⟩

theorem offers_iff (hc : p.definition? d = some c) :
    p.Offers d i ↔ (((∃ s ∈ c.interfaces, i = s ∨ p.Offers s i) ∨
      c.isInterface = true ∧ i = d) ∨ ∃ s, c.superclass = some s ∧ p.Offers s i) := by
  -- what is offered from one step up is offered through a declared interface or the superclass
  have hstep (s : Descriptor) (hs : p.Declares d s) (hi : p.Offers s i) :
      ((∃ s ∈ c.interfaces, i = s ∨ p.Offers s i) ∨ c.isInterface = true ∧ i = d) ∨
        ∃ s, c.superclass = some s ∧ p.Offers s i := by
    rcases (declares_iff hc).1 hs with hs | hs
    · exact .inr ⟨s, hs, hi⟩
    · exact .inl (.inl ⟨s, hs, .inr hi⟩)
  constructor
  · rintro (⟨e, ce, he, hce, hi⟩ | ⟨hi, ci, hci, hflag⟩)
    · rcases Relation.ReflTransGen.cases_head he with rfl | ⟨s, hs, hrest⟩
      · cases hc.symm.trans hce
        exact .inl (.inl ⟨i, hi, .inl rfl⟩)
      · exact hstep s hs (.inl ⟨e, ce, hrest, hce, hi⟩)
    · rcases Relation.ReflTransGen.cases_head hi with rfl | ⟨s, hs, hrest⟩
      · cases hc.symm.trans hci
        exact .inl (.inr ⟨hflag, rfl⟩)
      · exact hstep s hs (.inr ⟨hrest, ci, hci, hflag⟩)
  · rintro ((⟨s, hs, rfl | hi⟩ | ⟨hflag, rfl⟩) | ⟨s, hs, hi⟩)
    · exact .inl ⟨d, c, .refl, hc, hs⟩
    · exact hi.below (.single ((declares_iff hc).2 (.inr hs)))
    · exact .inr ⟨.refl, c, hc, hflag⟩
    · exact hi.below (.single ((declares_iff hc).2 (.inl hs)))

theorem whole_iff (hc : p.definition? d = some c) :
    p.Whole d ↔ (∀ s ∈ c.interfaces, p.Whole s) ∧ ∀ s, c.superclass = some s → p.Whole s := by
  constructor
  · intro h
    exact ⟨fun s hs => h.above (.single ((declares_iff hc).2 (.inr hs))),
      fun s hs => h.above (.single ((declares_iff hc).2 (.inl hs)))⟩
  · rintro ⟨hinterfaces, hsuper⟩ e he
    rcases Relation.ReflTransGen.cases_head he with rfl | ⟨s, hs, hrest⟩
    · exact ⟨c, hc⟩
    · rcases (declares_iff hc).1 hs with hs | hs
      · exact hsuper s hs e hrest
      · exact hinterfaces s hs e hrest

/-! ## Putting tables together -/

section Lists

variable {offered offered' : Descriptor → Prop} {whole whole' : Prop}
  {t sub : Computed InterfaceMap}

theorem Lists.congr (h : p.Lists offered whole t) (ho : ∀ i, offered i ↔ offered' i)
    (hw : whole ↔ whole') : p.Lists offered' whole' t :=
  ⟨fun i => (h.present i).trans (ho i), h.resolved, h.complete.trans hw⟩

theorem Lists.insert {e : InterfaceEntry} (h : p.Lists offered whole t)
    (he : e = .unresolved ↔ ¬ p.Defined d) :
    p.Lists (fun i => offered i ∨ i = d) whole ⟨t.value.insert d e, t.complete⟩ where
  present i := by
    rw [InterfaceMap.get?_insert, Option.isSome_or, Bool.or_eq_true, h.present, eq_comm (a := i)]
    by_cases hdi : d = i <;> simp [hdi]
  resolved i e' he' := by
    rw [InterfaceMap.get?_insert, Option.or_eq_some_iff] at he'
    rcases he' with he' | ⟨-, he'⟩
    · exact h.resolved i e' he'
    · split at he'
      · next hdi =>
        cases he'
        exact hdi ▸ he
      · cases he'
  complete := h.complete

theorem Lists.insertAll (h : p.Lists offered whole t) (hsub : p.Lists offered' whole' sub) :
    p.Lists (fun i => offered i ∨ offered' i) (whole ∧ whole')
      ⟨t.value.insertAll sub.value.entries, t.complete && sub.complete⟩ where
  present i := by
    rw [InterfaceMap.get?_insertAll, Option.isSome_or, Bool.or_eq_true, h.present]
    exact or_congr_right (hsub.present i)
  resolved i e he := by
    rw [InterfaceMap.get?_insertAll, Option.or_eq_some_iff] at he
    rcases he with he | ⟨-, he⟩
    · exact h.resolved i e he
    · exact hsub.resolved i e he
  complete := by rw [Bool.and_eq_true, h.complete, hsub.complete]

/-- A subclass has the entries of its superclass as inherited ones. -/
theorem Lists.through (h : p.Lists offered whole t) :
    p.Lists offered whole
      ⟨⟨t.value.entries.map fun e => (e.1, e.2.throughSuperclass)⟩, t.complete⟩ where
  present i := by
    rw [InterfaceMap.get?_through, Option.isSome_map]
    exact h.present i
  resolved i e he := by
    rw [InterfaceMap.get?_through, Option.map_eq_some_iff] at he
    obtain ⟨e', he', rfl⟩ := he
    exact InterfaceEntry.throughSuperclass_eq_unresolved.trans (h.resolved i e' he')
  complete := h.complete

/-- An interface has itself. -/
theorem Lists.self (h : p.Lists offered whole t) (hc : p.definition? d = some c) :
    p.Lists (fun i => offered i ∨ c.isInterface = true ∧ i = d) whole
      (if c.isInterface then ⟨t.value.insert c.descriptor .inherited, t.complete⟩ else t) := by
  rw [definition?_descriptor hc]
  have hd : InterfaceEntry.inherited = .unresolved ↔ ¬ p.Defined d := by simp [Defined, hc]
  cases hflag : c.isInterface with
  | true => exact (h.insert hd).congr (fun i => by simp) .rfl
  | false => exact h.congr (fun i => by simp) .rfl

theorem Lists.flag {b : Bool} (h : p.Lists offered whole t) (hb : b = true ↔ whole') :
    p.Lists offered (whole ∧ whole') ⟨t.value, t.complete && b⟩ :=
  ⟨h.present, h.resolved, by rw [Bool.and_eq_true, h.complete, hb]⟩

end Lists

/-! ## The table of a class -/

section Collected

variable {I : Memo → Prop} {interfacesOf : Descriptor → Query (Computed InterfaceMap)}

/-- A declared interface and what it brings with it. -/
theorem Lists.add {done : List Descriptor} {acc sub : Computed InterfaceMap} {e : InterfaceEntry}
    (hacc : p.Lists (fun i => ∃ s ∈ done, i = s ∨ p.Offers s i) (∀ s ∈ done, p.Whole s) acc)
    (he : e = .unresolved ↔ ¬ p.Defined s) (hsub : p.Lists (p.Offers s) (p.Whole s) sub) :
    p.Lists (fun i => ∃ s' ∈ done ++ [s], i = s' ∨ p.Offers s' i) (∀ s' ∈ done ++ [s], p.Whole s')
      ⟨(acc.value.insert s e).insertAll sub.value.entries,
        acc.complete && e ≠ .unresolved && sub.complete⟩ := by
  have hflag : decide (e ≠ .unresolved) = true ↔ p.Defined s :=
    decide_eq_true_iff.trans he.not_left
  refine (((hacc.insert he).flag hflag).insertAll hsub).congr (fun i => ?_) ?_
  · simp only [List.mem_append, List.mem_singleton]
    constructor
    · rintro ((⟨s', hs', hi⟩ | rfl) | hi)
      · exact ⟨s', .inl hs', hi⟩
      · exact ⟨_, .inr rfl, .inl rfl⟩
      · exact ⟨s, .inr rfl, .inr hi⟩
    · rintro ⟨s', hs' | rfl, hi⟩
      · exact .inl (.inl ⟨s', hs', hi⟩)
      · rcases hi with rfl | hi
        · exact .inl (.inr rfl)
        · exact .inr hi
  · rw [List.forall_mem_append, List.forall_mem_singleton, and_assoc]
    exact and_congr_right fun _ => and_iff_right_of_imp fun h => h s .refl

/-- A declared interface that is there already. It came with a table that has it, and
    so did all that it brings. -/
theorem Lists.keep {done : List Descriptor} {acc : Computed InterfaceMap}
    (hacc : p.Lists (fun i => ∃ s ∈ done, i = s ∨ p.Offers s i) (∀ s ∈ done, p.Whole s) acc)
    (hthere : acc.value.contains s = true) :
    p.Lists (fun i => ∃ s' ∈ done ++ [s], i = s' ∨ p.Offers s' i) (∀ s' ∈ done ++ [s], p.Whole s')
      acc := by
  obtain ⟨e, he, hse⟩ := (hacc.present s).1 hthere
  refine hacc.congr (fun i => ?_) ?_
  · simp only [List.mem_append, List.mem_singleton]
    constructor
    · rintro ⟨s', hs', hi⟩
      exact ⟨s', .inl hs', hi⟩
    · rintro ⟨s', hs' | rfl, hi⟩
      · exact ⟨s', hs', hi⟩
      · rcases hse with rfl | hse
        · exact ⟨_, he, hi⟩
        · rcases hi with rfl | hi
          · exact ⟨e, he, .inr hse⟩
          · exact ⟨e, he, .inr (hi.below hse.reaches)⟩
  · rw [List.forall_mem_append, List.forall_mem_singleton]
    refine (and_iff_left_of_imp fun h => ?_).symm
    rcases hse with rfl | hse
    · exact h _ he
    · exact (h e he).above hse.reaches

theorem addInterface_lists {done : List Descriptor} {acc : Computed InterfaceMap}
    (hacc : p.Lists (fun i => ∃ s ∈ done, i = s ∨ p.Offers s i) (∀ s ∈ done, p.Whole s) acc)
    (hs : Gives I (p.Lists (p.Offers s) (p.Whole s)) (interfacesOf s)) :
    Gives I (p.Lists (fun i => ∃ s' ∈ done ++ [s], i = s' ∨ p.Offers s' i)
      (∀ s' ∈ done ++ [s], p.Whole s')) (p.addInterface interfacesOf acc s) := by
  simp only [addInterface]
  refine Gives.ite (fun hthere => Gives.pure (hacc.keep hthere)) fun _ =>
    Gives.bind hs fun sub hsub => Gives.pure (hacc.add ?_ hsub)
  cases h : p.definition? s <;> simp [Defined, h]

theorem collectInterfaces_lists (hc : p.definition? d = some c)
    (hsuper : ∀ s, c.superclass = some s → (p.isResolved s = true ↔ p.Defined s))
    (hof : ∀ s, p.Declares d s → Gives I (p.Lists (p.Offers s) (p.Whole s)) (interfacesOf s)) :
    Gives I (p.Lists (p.Offers d) (p.Whole d)) (p.collectInterfaces interfacesOf c) := by
  simp only [collectInterfaces]
  have hempty : p.Lists (fun i => ∃ s ∈ ([] : List Descriptor), i = s ∨ p.Offers s i)
      (∀ s ∈ ([] : List Descriptor), p.Whole s) ⟨InterfaceMap.empty, true⟩ := by
    refine ⟨fun i => ?_, fun i e he => ?_, ?_⟩
    · simp [InterfaceMap.empty, InterfaceMap.get?]
    · cases he
    · simp
  have hinterfaces := Gives.foldlM (I := I)
    (J := fun done acc => p.Lists (fun i => ∃ s ∈ done, i = s ∨ p.Offers s i)
      (∀ s ∈ done, p.Whole s) acc)
    (fun done s acc hs hacc => addInterface_lists hacc (hof s ((declares_iff hc).2 (.inr hs))))
    [] _ hempty
  refine Gives.bind hinterfaces fun acc hacc => ?_
  rw [List.nil_append] at hacc
  have hself := hacc.self hc
  cases hs : c.superclass with
  | none =>
    refine Gives.pure (hself.congr (fun i => ?_) ?_)
    · rw [offers_iff hc]
      simp [hs]
    · rw [whole_iff hc]
      simp [hs]
  | some s =>
    refine Gives.bind (hof s ((declares_iff hc).2 (.inl hs))) fun inherited hinherited =>
      Gives.pure ?_
    refine ((hself.flag (hsuper s hs)).insertAll hinherited.through).congr (fun i => ?_) ?_
    · rw [offers_iff hc]
      simp [hs]
    · rw [whole_iff hc]
      have hdefined : p.Whole s → p.Defined s := fun h => h s .refl
      simp only [hs, Option.some.injEq, forall_eq', and_assoc]
      exact and_congr_right fun _ => and_iff_right_of_imp hdefined

end Collected

theorem isResolved_iff (hd : d.NamesClass) : p.isResolved d = true ↔ p.Defined d := by
  simp only [isResolved, shape, hd.1, hd.2, Defined]
  cases p.definition? d <;> simp

theorem definition?_of_missing (hd : p.shape d = .missing) : p.definition? d = none := by
  simp only [shape] at hd
  split at hd
  · cases hd
  · split at hd
    · cases hd
    · split at hd
      · cases hd
      · assumption

/-- A class that is missing names nothing. -/
theorem reaches_iff_eq_of_missing (hd : p.shape d = .missing) : p.Reaches d i ↔ i = d := by
  constructor
  · intro h
    rcases Relation.ReflTransGen.cases_head h with h | ⟨s, ⟨c, hc, -⟩, -⟩
    · exact h.symm
    · simp [definition?_of_missing hd] at hc
  · rintro rfl
    exact .refl

/-- Without circular declarations, tables list what the declarations offer. -/
theorem collects_lists (hacyclic : ∀ d, ¬ Relation.TransGen p.Declares d d)
    (hnames : ∀ d s, p.Declares d s → d.NamesClass ∧ s.NamesClass) :
    p.Collects fun d t => d.NamesClass → p.Lists (p.Offers d) (p.Whole d) t where
  unknown hd := absurd rfl hd.1
  array d harray hd := by simp [hd.2] at harray
  missing d hmissing _ := by
    have hundefined (s : Descriptor) (hs : p.Reaches d s) (c : ClassDef) :
        p.definition? s ≠ some c := by
      rw [(reaches_iff_eq_of_missing hmissing).1 hs, definition?_of_missing hmissing]
      exact nofun
    refine ⟨fun i => ⟨nofun, ?_⟩, fun _ _ => nofun, nofun, ?_⟩
    · rintro (⟨s, c, hs, hc, -⟩ | ⟨hi, c, hc, -⟩)
      · exact absurd hc (hundefined s hs c)
      · exact absurd hc (hundefined i hi c)
    · intro h
      obtain ⟨c, hc⟩ := h d .refl
      exact absurd hc (hundefined d .refl c)
  circular d hd := absurd hd (hacyclic d)
  collected d c hc I interfacesOf hof m hm := by
    have hdefined := definition?_of_classDefinition hc
    have hlists (s : Descriptor) (hs : p.Declares d s) :
        Gives I (p.Lists (p.Offers s) (p.Whole s)) (interfacesOf s) :=
      (hof s hs).mono fun t ht => ht (hnames d s hs).2
    have h := collectInterfaces_lists hdefined
      (fun s hs => isResolved_iff (hnames d s ((declares_iff hdefined).2 (.inl hs))).2) hlists m hm
    exact ⟨fun _ => h.1, h.2⟩

theorem lists_after (hacyclic : ∀ d, ¬ Relation.TransGen p.Declares d d)
    (hnames : ∀ d s, p.Declares d s → d.NamesClass ∧ s.NamesClass)
    (history : List (Facet × Descriptor)) (hd : d.NamesClass) :
    p.Lists (p.Offers d) (p.Whole d) ((p.interfaces d).run (p.memoAfter history)).1 := by
  have hP := collects_lists hacyclic hnames
  exact (interfaces_gives hP d _ (recalling_after hP history)).1 hd

/-! ## Membership -/

theorem implements_run (m : Memo) :
    ((p.implements d i).run m).1 =
      match ((p.interfaces d).run m).1.value.get? i with
      | some .unresolved => .error ⟨i⟩
      | some _ => .ok true
      | none => if ((p.interfaces d).run m).1.complete then .ok false else .error ⟨i⟩ := by
  simp only [implements, StateT.run_bind]
  generalize (p.interfaces d).run m = asked
  obtain ⟨t, m'⟩ := asked
  dsimp only [bind]
  rcases t.value.get? i with _ | _ | _ <;> rfl

/-- The answer given from a table that lists the declarations. -/
theorem Lists.implements {m : Memo} {offered : Descriptor → Prop} {whole : Prop}
    (h : p.Lists offered whole ((p.interfaces d).run m).1) :
    (((p.implements d i).run m).1 = .ok true ↔ p.Defined i ∧ offered i) ∧
    ((∃ e, ((p.implements d i).run m).1 = .error e) ↔
      offered i ∧ ¬ p.Defined i ∨ ¬ offered i ∧ ¬ whole) ∧
    (((p.implements d i).run m).1 = .ok false ↔ ¬ offered i ∧ whole) := by
  rw [implements_run, ← h.present i, ← h.complete]
  cases he : ((p.interfaces d).run m).1.value.get? i with
  | none => cases ((p.interfaces d).run m).1.complete <;> simp
  | some e =>
    have hresolved := h.resolved i e he
    cases e with
    | unresolved => simpa using hresolved
    | direct c => simpa using hresolved
    | inherited => simpa using hresolved

/-- What is offered and not defined is declared. -/
theorem offers_undefined_iff (hi : ¬ p.Defined i) : p.Offers d i ↔ p.Declared d i :=
  ⟨fun h => h.resolve_right fun ⟨_, c, hc, _⟩ => hi ⟨c, hc⟩, .inl⟩

/-- Membership is what the declarations say: an interface is had if it is defined
    and offered at or above the class. There is no answer if it is declared there
    without a definition, or is not offered and something there is missing. -/
theorem implements_iff_reachable (p : ClassPath) (history : List (Facet × Descriptor))
    (hacyclic : ∀ d, ¬ Relation.TransGen p.Declares d d)
    (hnames : ∀ d s, p.Declares d s → d.NamesClass ∧ s.NamesClass)
    (d i : Descriptor) (hd : d.NamesClass) :
    let answer := ((p.implements d i).run (p.memoAfter history)).1
    let missing := p.Declared d i ∧ ¬ p.Defined i ∨
      ¬ p.Offers d i ∧ ∃ s, p.Reaches d s ∧ ¬ p.Defined s
    (answer = .ok true ↔ p.Defined i ∧ p.Offers d i) ∧
    ((∃ e, answer = .error e) ↔ missing) ∧
    (answer = .ok false ↔ ¬ (p.Defined i ∧ p.Offers d i) ∧ ¬ missing) := by
  intro answer missing
  have hlists := lists_after hacyclic hnames history hd
  obtain ⟨htrue, herror, hfalse⟩ := hlists.implements (i := i)
  have hwhole : ¬ p.Whole d ↔ ∃ s, p.Reaches d s ∧ ¬ p.Defined s := by
    simp [Whole]
  have hmissing : (p.Offers d i ∧ ¬ p.Defined i ∨ ¬ p.Offers d i ∧ ¬ p.Whole d) ↔ missing := by
    rw [hwhole]
    exact or_congr_left (and_congr_left fun hi => offers_undefined_iff hi)
  refine ⟨htrue, herror.trans hmissing, hfalse.trans ?_⟩
  rw [← hmissing]
  -- offered and defined, offered only, or not offered, with or without gaps
  by_cases ho : p.Offers d i <;> by_cases hi : p.Defined i <;> simp [ho, hi]

end ClassPath

/-! ## A class above which an interface is missing -/

namespace Sample

/-- A class that names two interfaces, one of which is not there. -/
def person : ClassDef :=
  { named "Lq/Person;" none 1 [] [] with interfaces := ["Lq/Role;", "Lq/Gone;"] }

def roles : ClassPath :=
  pathOf [named "Lq/Role;" none 513 [] [], person, named "Lq/Clerk;" (some "Lq/Person;") 1 [] []]

def rolesRank (d : Descriptor) : Nat :=
  if d = "Lq/Clerk;" then 2 else if d = "Lq/Person;" then 1 else 0

end Sample

open Sample in
/-- An interface named by the superclass is had if it is defined; if not, that
    much is known about it. -/
theorem clerk_membership :
    ((roles.implements "Lq/Clerk;" "Lq/Role;").run (roles.memoAfter [])).1 = .ok true ∧
      ∃ e, ((roles.implements "Lq/Clerk;" "Lq/Gone;").run (roles.memoAfter [])).1 = .error e := by
  have hacyclic (d : Descriptor) : ¬ Relation.TransGen roles.Declares d d :=
    ClassPath.not_declares_self rolesRank (by decide +kernel) d
  have hnames : ∀ d s, roles.Declares d s → d.NamesClass ∧ s.NamesClass :=
    ClassPath.forall_declares (R := fun d s => d.NamesClass ∧ s.NamesClass) (by decide +kernel)
  have hdeclared (i : Descriptor) (hi : i ∈ person.interfaces) : roles.Declared "Lq/Clerk;" i := by
    refine ⟨"Lq/Person;", person, .single ?_, by decide +kernel, hi⟩
    exact ⟨named "Lq/Clerk;" (some "Lq/Person;") 1 [] [], by decide +kernel, by decide +kernel⟩
  have hmember := roles.implements_iff_reachable [] hacyclic hnames "Lq/Clerk;"
  constructor
  · refine (hmember "Lq/Role;" (by decide +kernel)).1.2 ⟨?_, .inl (hdeclared _ (by decide))⟩
    exact ⟨named "Lq/Role;" none 513 [] [], by decide +kernel⟩
  · have hgone : roles.definition? "Lq/Gone;" = none := by decide +kernel
    refine (hmember "Lq/Gone;" (by decide +kernel)).2.1.2 (.inl ⟨hdeclared _ (by decide), ?_⟩)
    simp [ClassPath.Defined, hgone]

end SymbolicDex
