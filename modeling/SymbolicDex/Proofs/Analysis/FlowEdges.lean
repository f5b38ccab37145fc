import SymbolicDex.Analysis.Context
import Mathlib.Data.List.Nodup

/- The edges of a flow graph. The graph keeps the edges out of an instruction,
   and the edges into one are read off them. The two views agree because the
   search that builds the graph takes every instruction up at most once, and
   no edge leaves the body.

   What is proved:
     1. `build_wellFormed`: in the graph of a body the sources are distinct and
        every target is an instruction.
     2. `mem_predecessors_normal`, `mem_predecessors_exceptional`: an edge comes
        in over `predecessors` exactly when it goes out over `successors` or
        `handlers`. -/
namespace SymbolicDex

namespace FlowGraph

/-- The flows have distinct sources, and sources and targets are among the
    first `count` instructions. -/
structure WellFormed (g : FlowGraph) (count : Nat) : Prop where
  sources : (g.flows.map (·.source)).Nodup
  targets : ∀ f ∈ g.flows, ∀ t ∈ f.targets, t < count

/-! ## Targets of an instruction -/

theorem length_addressesFrom (start : Nat) (is : List Instruction) :
    (Instruction.addressesFrom start is).length = is.length := by
  induction is generalizing start with
  | nil => rfl
  | cons i is ih => simp [Instruction.addressesFrom, ih]

theorem length_addresses (code : Code) : code.addresses.length = code.instructions.length :=
  length_addressesFrom 0 _

theorem branchIndex_lt {addresses : List Nat} {source ix : Nat} {distance : Int}
    (h : branchIndex addresses source distance = .ok ix) : ix < addresses.length := by
  unfold branchIndex indexFrom? at h
  split at h
  · rename_i hfound
    cases h
    exact (List.findIdx?_eq_some_iff_findIdx_eq.1 hfound).1
  · cases h

theorem handlerIndex_lt {addresses : List Nat} {source handler ix : Nat}
    (h : handlerIndex addresses source handler = .ok ix) : ix < addresses.length := by
  unfold handlerIndex at h
  split at h
  · rename_i hfound
    cases h
    exact (List.findIdx?_eq_some_iff_findIdx_eq.1 hfound).1
  · cases h

/-- What a fallible map returns has the property that each of its answers has. -/
theorem mapM_forall {ε α β : Type} {P : β → Prop} {f : α → Except ε β}
    (hf : ∀ a b, f a = .ok b → P b) {as : List α} {bs : List β} (h : as.mapM f = .ok bs) :
    ∀ b ∈ bs, P b := by
  induction as generalizing bs with
  | nil =>
    cases h
    simp
  | cons a as ih =>
    rw [List.mapM_cons] at h
    cases ha : f a with
    | error e =>
      rw [ha] at h
      cases h
    | ok b =>
      cases has : as.mapM f with
      | error e =>
        rw [ha, has] at h
        cases h
      | ok rest =>
        rw [ha, has] at h
        cases h
        exact List.forall_mem_cons.2 ⟨hf a b ha, ih has⟩

theorem branchTargets_lt {code : Code} {addresses targets : List Nat} {address : Nat}
    {i : Instruction} (h : branchTargets code addresses address i = .ok targets) :
    ∀ t ∈ targets, t < addresses.length := by
  unfold branchTargets at h
  split at h
  · cases h
    simp
  · split at h
    · cases htable : branchIndex addresses address _ with
      | error e =>
        rw [htable] at h
        cases h
      | ok table =>
        rw [htable] at h
        simp only [bind, Except.bind] at h
        split at h
        · exact mapM_forall (fun a b => branchIndex_lt) h
        · cases h
    · split at h
      · cases h
        simp
      · cases htarget : branchIndex addresses address _ with
        | error e =>
          rw [htarget] at h
          cases h
        | ok target =>
          rw [htarget] at h
          cases h
          simpa using branchIndex_lt htarget

/-- The instruction that control passes to when nothing else is said. -/
theorem next_lt {code : Code} {address ix : Nat} {i : Instruction} {next : List Nat}
    (h : (if i.opcode.canContinue then
        if ix + 1 < code.instructions.length then .ok [ix + 1]
        else .error (AnalysisFailure.atAddress address .runsPastEnd)
      else .ok []) = Except.ok next) : ∀ t ∈ next, t < code.instructions.length := by
  split at h
  · split at h
    · cases h
      simpa
    · cases h
  · cases h
    simp

theorem handlers_of_throw_lt {code : Code} {addresses handlers : List Nat} {address : Nat}
    {i : Instruction}
    (h : (if i.opcode.canThrow then
        ((code.tries.filter (·.covers address)).flatMap (·.handlers)).mapM
          fun h => handlerIndex addresses address h.address
      else .ok []) = Except.ok handlers) : ∀ t ∈ handlers, t < addresses.length := by
  split at h
  · exact mapM_forall (fun a b => handlerIndex_lt) h
  · cases h
    simp

theorem bind_eq_ok {ε α β : Type} {x : Except ε α} {f : α → Except ε β} {b : β}
    (h : x >>= f = .ok b) : ∃ a, x = .ok a ∧ f a = .ok b := by
  cases x with
  | error e => cases h
  | ok a => exact ⟨a, rfl, h⟩

/-- The three kinds of targets are found one after the other. -/
theorem flowOf_eq (code : Code) (addresses : List Nat) (ix : Nat) (i : Instruction) :
    flowOf code addresses ix i =
      ((if i.opcode.canContinue then
          if ix + 1 < code.instructions.length then .ok [ix + 1]
          else .error (AnalysisFailure.atAddress (addresses.getD ix 0) .runsPastEnd)
        else .ok []) >>= fun next =>
      branchTargets code addresses (addresses.getD ix 0) i >>= fun targets =>
      (if i.opcode.canThrow then
          ((code.tries.filter (·.covers (addresses.getD ix 0))).flatMap (·.handlers)).mapM
            fun h => handlerIndex addresses (addresses.getD ix 0) h.address
        else .ok []) >>= fun handlers =>
      .ok ⟨ix, (next ++ targets).eraseDups, handlers.eraseDups⟩) := by
  unfold flowOf
  by_cases hcontinue : i.opcode.canContinue <;> by_cases hthrow : i.opcode.canThrow <;>
    by_cases hnext : ix + 1 < code.instructions.length <;>
    simp only [hcontinue, hthrow, hnext, if_true, if_false] <;> rfl

theorem flowOf_inv {code : Code} {ix : Nat} {i : Instruction} {f : Flow}
    (h : flowOf code code.addresses ix i = .ok f) :
    f.source = ix ∧ ∀ t ∈ f.targets, t < code.instructions.length := by
  rw [flowOf_eq] at h
  obtain ⟨next, hnext, h⟩ := bind_eq_ok h
  obtain ⟨targets, htargets, h⟩ := bind_eq_ok h
  obtain ⟨handlers, hhandlers, h⟩ := bind_eq_ok h
  cases h
  refine ⟨rfl, fun t ht => ?_⟩
  simp only [Flow.targets, List.mem_append, List.mem_eraseDups] at ht
  rcases ht with (ht | ht) | ht
  · exact next_lt hnext t ht
  · exact length_addresses code ▸ branchTargets_lt htargets t ht
  · exact length_addresses code ▸ handlers_of_throw_lt hhandlers t ht

/-! ## The search -/

theorem nodup_eraseDups (as : List Nat) : as.eraseDups.Nodup := by
  cases as with
  | nil => exact List.nodup_nil
  | cons a as =>
    rw [List.eraseDups_cons, List.nodup_cons]
    refine ⟨?_, nodup_eraseDups _⟩
    simp [List.mem_eraseDups]
termination_by as.length
decreasing_by exact Nat.lt_succ_of_le (List.length_filter_le _ _)

/-- The instructions that one step of the search puts on the queue. -/
theorem nodup_append_fresh {queue seen targets : List Nat} (hq : queue.Nodup)
    (hseen : ∀ q ∈ queue, q ∈ seen) :
    (queue ++ targets.eraseDups.filter (· ∉ seen)).Nodup := by
  refine List.nodup_append'.2 ⟨hq, (nodup_eraseDups _).filter _, ?_⟩
  intro q hqueue hfresh
  simp only [List.mem_filter, decide_eq_true_eq] at hfresh
  exact hfresh.2 (hseen q hqueue)

/-- Every flow starts at an instruction that was queued or not yet seen, so no
    instruction is taken up twice. -/
theorem explore_inv {code : Code} {count : Nat} {queue seen : List Nat} {flows : List Flow}
    (hq : queue.Nodup) (hseen : ∀ q ∈ queue, q ∈ seen)
    (h : explore code code.addresses count queue seen = .ok flows) :
    (flows.map (·.source)).Nodup ∧ (∀ f ∈ flows, f.source ∈ queue ∨ f.source ∉ seen) ∧
      ∀ f ∈ flows, ∀ t ∈ f.targets, t < code.instructions.length := by
  induction count generalizing queue seen flows with
  | zero =>
    cases h
    simp
  | succ count ih =>
    cases queue with
    | nil =>
      cases h
      simp
    | cons ix queue =>
      have hix : ix ∉ queue ∧ queue.Nodup := List.nodup_cons.1 hq
      have hrest : ∀ q ∈ queue, q ∈ seen := fun q hmem => hseen q (List.mem_cons_of_mem _ hmem)
      unfold explore at h
      split at h
      -- past the end of the body, nothing is taken up
      · obtain ⟨hnodup, hsource, htargets⟩ := ih hix.2 hrest h
        exact ⟨hnodup, fun f hf => (hsource f hf).imp_left (List.mem_cons_of_mem _), htargets⟩
      · simp only [bind, Except.bind, pure, Except.pure] at h
        -- three things may fail: the flow, its check and the rest of the search
        split at h
        · cases h
        rename_i f hf
        split at h
        · cases h
        split at h
        · cases h
        rename_i rest hexplore
        cases h
        have hfresh : ∀ q ∈ queue ++ f.targets.eraseDups.filter (· ∉ seen),
            q ∈ seen ++ f.targets.eraseDups.filter (· ∉ seen) := by
          intro q hmem
          rcases List.mem_append.1 hmem with hmem | hmem
          · exact List.mem_append_left _ (hrest q hmem)
          · exact List.mem_append_right _ hmem
        obtain ⟨hnodup, hsource, htargets⟩ :=
          ih (nodup_append_fresh hix.2 hrest) hfresh hexplore
        obtain ⟨hfix, hflt⟩ := flowOf_inv hf
        -- a later source is queued, fresh or unseen; `ix` is none of these
        have hlater : ∀ g ∈ rest, g.source ∈ queue ∨ g.source ∉ seen := by
          intro g hg
          rcases hsource g hg with hmem | hmem
          · rcases List.mem_append.1 hmem with hmem | hmem
            · exact .inl hmem
            · exact .inr (by simpa using (List.mem_filter.1 hmem).2)
          · exact .inr fun hs => hmem (List.mem_append_left _ hs)
        refine ⟨?_, ?_, ?_⟩
        · rw [List.map_cons, List.nodup_cons]
          refine ⟨?_, hnodup⟩
          rintro hmem
          obtain ⟨g, hg, hgix⟩ := List.mem_map.1 hmem
          rw [hfix] at hgix
          rcases hlater g hg with hmem | hmem
          · exact hix.1 (hgix ▸ hmem)
          · exact hmem (hgix ▸ hseen ix List.mem_cons_self)
        · refine List.forall_mem_cons.2 ⟨.inl (by simp [hfix]), fun g hg => ?_⟩
          exact (hlater g hg).imp_left (List.mem_cons_of_mem _)
        · exact List.forall_mem_cons.2 ⟨hflt, htargets⟩

theorem build_wellFormed {code : Code} {g : FlowGraph} (h : build code = .ok g) :
    g.WellFormed code.instructions.length := by
  unfold build at h
  dsimp only at h
  split at h
  · cases h
    exact ⟨List.nodup_nil, by simp⟩
  · split at h
    · cases h
    · simp only [bind, Except.bind, pure, Except.pure] at h
      split at h
      · cases h
      rename_i flows hflows
      cases h
      obtain ⟨hnodup, -, htargets⟩ := explore_inv (List.nodup_singleton 0) (by simp) hflows
      exact ⟨hnodup, htargets⟩

/-! ## The two views of the edges -/

section

variable {g : FlowGraph} {count : Nat}

theorem flow?_eq_some_iff (hg : g.WellFormed count) {ix : Nat} {f : Flow} :
    g.flow? ix = some f ↔ f ∈ g.flows ∧ f.source = ix := by
  constructor
  · intro h
    exact ⟨List.mem_of_find?_eq_some h, by simpa using List.find?_some h⟩
  · rintro ⟨hf, rfl⟩
    cases hfind : g.flow? f.source with
    | none =>
      have hnone := List.find?_eq_none.1 hfind f hf
      simp at hnone
    | some f' =>
      -- sources are distinct, so what is found first is `f`
      have hmem := List.mem_of_find?_eq_some hfind
      have hsource : f'.source = f.source := by simpa using List.find?_some hfind
      rw [List.inj_on_of_nodup_map hg.sources hmem hf hsource]

theorem mem_targets (hg : g.WellFormed count) (targets : Flow → List Nat) {ix t : Nat} :
    t ∈ ((g.flow? ix).map targets).getD [] ↔ ∃ f ∈ g.flows, f.source = ix ∧ t ∈ targets f := by
  constructor
  · intro h
    cases hf : g.flow? ix with
    | none => simp [hf] at h
    | some f =>
      obtain ⟨hmem, hsource⟩ := (flow?_eq_some_iff hg).1 hf
      exact ⟨f, hmem, hsource, by simpa [hf] using h⟩
  · rintro ⟨f, hmem, hsource, ht⟩
    rw [(flow?_eq_some_iff hg).2 ⟨hmem, hsource⟩]
    exact ht

theorem mem_successors (hg : g.WellFormed count) {ix t : Nat} :
    t ∈ g.successors ix ↔ ∃ f ∈ g.flows, f.source = ix ∧ t ∈ f.successors :=
  mem_targets hg (·.successors)

theorem mem_handlers (hg : g.WellFormed count) {ix t : Nat} :
    t ∈ g.handlers ix ↔ ∃ f ∈ g.flows, f.source = ix ∧ t ∈ f.handlers :=
  mem_targets hg (·.handlers)

theorem successors_lt (hg : g.WellFormed count) {ix t : Nat} (h : t ∈ g.successors ix) :
    t < count := by
  obtain ⟨f, hf, -, ht⟩ := (mem_successors hg).1 h
  exact hg.targets f hf t (List.mem_append_left _ ht)

theorem handlers_lt (hg : g.WellFormed count) {ix t : Nat} (h : t ∈ g.handlers ix) :
    t < count := by
  obtain ⟨f, hf, -, ht⟩ := (mem_handlers hg).1 h
  exact hg.targets f hf t (List.mem_append_right _ ht)

theorem mem_edgesTo {f : Flow} {q t : Nat} {exceptional : Bool} :
    (⟨q, exceptional⟩ : Edge) ∈ f.edgesTo t ↔
      f.source = q ∧ t ∈ if exceptional then f.handlers else f.successors := by
  unfold Flow.edgesTo
  by_cases hs : t ∈ f.successors <;> by_cases hh : t ∈ f.handlers <;> cases exceptional <;>
    simp [hs, hh, eq_comm]

theorem mem_predecessors_normal (hg : g.WellFormed count) {q t : Nat} :
    (⟨q, false⟩ : Edge) ∈ g.predecessors t ↔ t ∈ g.successors q := by
  rw [mem_successors hg, predecessors, List.mem_flatMap]
  exact exists_congr fun f => and_congr_right fun _ => mem_edgesTo

theorem mem_predecessors_exceptional (hg : g.WellFormed count) {q t : Nat} :
    (⟨q, true⟩ : Edge) ∈ g.predecessors t ↔ t ∈ g.handlers q := by
  rw [mem_handlers hg, predecessors, List.mem_flatMap]
  exact exists_congr fun f => and_congr_right fun _ => mem_edgesTo

end

end FlowGraph

/-! ## The method under analysis -/

theorem MethodContext.of_inv {path : ClassPath} {cls : ClassDef} {m : MethodDef}
    {c : MethodContext} (h : MethodContext.of path cls m = .ok c) :
    c.path = path ∧ c.cls = cls ∧ c.method = m ∧ m.code = some c.code ∧
      FlowGraph.build c.code = .ok c.graph ∧
      startTypes cls m c.code.registers = .ok c.start := by
  unfold MethodContext.of at h
  dsimp only at h
  split at h
  · cases h
  · rename_i code hcode
    cases hstart : startTypes cls m code.registers with
    | error e =>
      rw [hstart] at h
      cases h
    | ok start =>
      cases hgraph : FlowGraph.build code with
      | error e =>
        rw [hstart, hgraph] at h
        cases h
      | ok graph =>
        rw [hstart, hgraph] at h
        cases h
        exact ⟨rfl, rfl, rfl, hcode, hgraph, hstart⟩

/-- A context that stands for a method of the class path. -/
def MethodContext.Built (c : MethodContext) : Prop :=
  MethodContext.of c.path c.cls c.method = .ok c

theorem MethodContext.Built.of {path : ClassPath} {cls : ClassDef} {m : MethodDef}
    {c : MethodContext} (h : MethodContext.of path cls m = .ok c) : c.Built := by
  obtain ⟨hpath, hcls, hm, -⟩ := MethodContext.of_inv h
  unfold MethodContext.Built
  rw [hpath, hcls, hm, h]

theorem MethodContext.Built.wellFormed {c : MethodContext} (h : c.Built) :
    c.graph.WellFormed c.code.instructions.length :=
  FlowGraph.build_wellFormed (of_inv h).2.2.2.2.1

end SymbolicDex
