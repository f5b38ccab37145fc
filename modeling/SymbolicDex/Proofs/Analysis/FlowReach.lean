import SymbolicDex.Proofs.Analysis.Completeness
import SymbolicDex.Proofs.Analysis.FlowEdges
import Mathlib.Data.List.Perm.Subperm
import Mathlib.Logic.Relation

/- What the search that builds a flow graph finds. A queued instruction is taken
   up within the rounds the search is given: every round takes one instruction
   off the queue, and no more instructions are ever queued than the body has. So
   the flows are closed under the edges, and their sources are the instructions
   that control can get to.

   What is proved:
     1. `explore_complete`: what is queued gets a flow, and so does what a flow
        leads to.
     2. `FlowGraph.reachable_iff`: an instruction is reachable in the graph of a
        body exactly when it has a flow.
     3. `MethodContext.graph_faithful`: the graph of a method stores each edge
        once in each direction, only for the reachable instructions, and no edge
        but a throw leads to a move-exception. -/
namespace SymbolicDex

namespace FlowGraph

/-- Control passes from one instruction to another, by itself or on a throw. -/
def Passes (g : FlowGraph) (ix t : Nat) : Prop := t ∈ g.successors ix ∨ t ∈ g.handlers ix

/-- Control can get from the first instruction to this one. -/
def Reachable (g : FlowGraph) (ix : Nat) : Prop := Relation.ReflTransGen g.Passes 0 ix

/-- The edges are those of the reachable instructions of `code`, each once in
    either direction. -/
structure Faithful (g : FlowGraph) (code : Code) : Prop where
  addresses : g.addresses = code.addresses
  normal : ∀ ix s, s ∈ g.successors ix ↔ (⟨ix, false⟩ : Edge) ∈ g.predecessors s
  exceptional : ∀ ix h, h ∈ g.handlers ix ↔ (⟨ix, true⟩ : Edge) ∈ g.predecessors h
  once : ∀ ix, (g.successors ix).Nodup ∧ (g.handlers ix).Nodup ∧ (g.predecessors ix).Nodup
  inside : ∀ ix i, g.Reachable ix → code.instructions[ix]? = some i →
    flowOf code code.addresses ix i = .ok ⟨ix, g.successors ix, g.handlers ix⟩
  outside : ∀ ix, ¬g.Reachable ix →
    g.successors ix = [] ∧ g.handlers ix = [] ∧ g.predecessors ix = []
  range : ∀ ix t, g.Passes ix t → ix < code.instructions.length ∧ t < code.instructions.length
  entry : ∀ i, code.instructions[0]? = some i → i.opcode ≠ .moveException
  targets : ∀ ix s i, s ∈ g.successors ix → code.instructions[s]? = some i →
    i.opcode ≠ .moveException

/-! ## One flow -/

theorem flowOf_nodup {code : Code} {addresses : List Nat} {ix : Nat} {i : Instruction} {f : Flow}
    (h : flowOf code addresses ix i = .ok f) : f.successors.Nodup ∧ f.handlers.Nodup := by
  rw [flowOf_eq] at h
  obtain ⟨next, -, h⟩ := bind_eq_ok h
  obtain ⟨targets, -, h⟩ := bind_eq_ok h
  obtain ⟨handlers, -, h⟩ := bind_eq_ok h
  cases h
  exact ⟨nodup_eraseDups _, nodup_eraseDups _⟩

theorem checkSuccessors_inv {code : Code} {addresses : List Nat} {source : Opcode} {f : Flow}
    (h : checkSuccessors code addresses source f = .ok ()) {s : Nat} (hs : s ∈ f.successors)
    {i : Instruction} (hi : code.instructions[s]? = some i) : i.opcode ≠ .moveException := by
  unfold checkSuccessors at h
  split at h
  · rename_i hnone
    simpa [hi] using List.find?_eq_none.1 hnone s hs
  · cases h

theorem nodup_edgesTo (f : Flow) (t : Nat) : (f.edgesTo t).Nodup := by
  unfold Flow.edgesTo
  split <;> split <;> simp

/-! ## The search -/

section

variable {code : Code} {count ix : Nat} {queue seen : List Nat} {flows : List Flow}

/-- One round takes the first instruction off the queue and puts the targets that
    were not seen before at its end. -/
theorem explore_cons_inv {i : Instruction} (hi : code.instructions[ix]? = some i)
    (h : explore code code.addresses (count + 1) (ix :: queue) seen = .ok flows) :
    ∃ f rest, flowOf code code.addresses ix i = .ok f ∧
      checkSuccessors code code.addresses i.opcode f = .ok () ∧
      explore code code.addresses count (queue ++ f.targets.eraseDups.filter (· ∉ seen))
        (seen ++ f.targets.eraseDups.filter (· ∉ seen)) = .ok rest ∧ flows = f :: rest := by
  simp only [explore, hi] at h
  obtain ⟨f, hf, h⟩ := bind_eq_ok h
  obtain ⟨⟨⟩, hcheck, h⟩ := bind_eq_ok h
  obtain ⟨rest, hrest, h⟩ := bind_eq_ok h
  cases h
  exact ⟨f, rest, hf, hcheck, hrest, rfl⟩

/-- A flow of the search is the flow of an instruction, and it passed its check. -/
theorem explore_flows (h : explore code code.addresses count queue seen = .ok flows) :
    ∀ f ∈ flows, ∃ i, code.instructions[f.source]? = some i ∧
      flowOf code code.addresses f.source i = .ok f ∧
      checkSuccessors code code.addresses i.opcode f = .ok () := by
  induction count generalizing queue seen flows with
  | zero =>
    cases h
    simp
  | succ count ih =>
    cases queue with
    | nil =>
      cases h
      simp
    | cons ix queue =>
      cases hi : code.instructions[ix]? with
      | none =>
        simp only [explore, hi] at h
        exact ih h
      | some i =>
        obtain ⟨f, rest, hf, hcheck, hrest, rfl⟩ := explore_cons_inv hi h
        refine List.forall_mem_cons.2 ⟨?_, ih hrest⟩
        rw [(flowOf_inv hf).1]
        exact ⟨i, hi, hf, hcheck⟩

/-- A property of the queue that flows hand on holds of all their sources. -/
theorem explore_sources {P : Nat → Prop} (hqueue : ∀ q ∈ queue, P q)
    (h : explore code code.addresses count queue seen = .ok flows)
    (hflows : ∀ f ∈ flows, P f.source → ∀ t ∈ f.targets, P t) : ∀ f ∈ flows, P f.source := by
  induction count generalizing queue seen flows with
  | zero =>
    cases h
    simp
  | succ count ih =>
    cases queue with
    | nil =>
      cases h
      simp
    | cons ix queue =>
      obtain ⟨hix, hqueue⟩ := List.forall_mem_cons.1 hqueue
      cases hi : code.instructions[ix]? with
      | none =>
        simp only [explore, hi] at h
        exact ih hqueue h hflows
      | some i =>
        obtain ⟨f, rest, hf, -, hrest, rfl⟩ := explore_cons_inv hi h
        obtain ⟨hfirst, hflows⟩ := List.forall_mem_cons.1 hflows
        have hsource : P f.source := (flowOf_inv hf).1 ▸ hix
        refine List.forall_mem_cons.2 ⟨hsource, ih ?_ hrest hflows⟩
        intro q hq
        rcases List.mem_append.1 hq with hq | hq
        · exact hqueue q hq
        · exact hfirst hsource q (List.mem_eraseDups.1 (List.mem_filter.1 hq).1)

/-- Instructions that are all different are no more than the body has. -/
theorem length_le_of_nodup {n : Nat} (hnodup : seen.Nodup) (hlt : ∀ q ∈ seen, q < n) :
    seen.length ≤ n := by
  have hsub : seen ⊆ List.range n := fun q hq => List.mem_range.2 (hlt q hq)
  simpa using (hnodup.subperm hsub).length_le

/-- With a round for each queued instruction and each unseen one, no instruction
    is left on the queue. -/
theorem explore_complete (hnodup : seen.Nodup) (hlt : ∀ q ∈ seen, q < code.instructions.length)
    (hqueue : ∀ q ∈ queue, q ∈ seen)
    (hcount : queue.length + (code.instructions.length - seen.length) ≤ count)
    (h : explore code code.addresses count queue seen = .ok flows) :
    (∀ q ∈ queue, ∃ f ∈ flows, f.source = q) ∧
      ∀ f ∈ flows, ∀ t ∈ f.targets, t ∈ seen ∨ ∃ g ∈ flows, g.source = t := by
  induction count generalizing queue seen flows with
  | zero =>
    have hnil : queue = [] := List.eq_nil_of_length_eq_zero (by omega)
    cases h
    simp [hnil]
  | succ count ih =>
    cases queue with
    | nil =>
      cases h
      simp
    | cons ix queue =>
      obtain ⟨hix, hqueue⟩ := List.forall_mem_cons.1 hqueue
      obtain ⟨f, rest, hf, -, hrest, rfl⟩ :=
        explore_cons_inv (List.getElem?_eq_getElem (hlt ix hix)) h
      obtain ⟨hsource, htargets⟩ := flowOf_inv hf
      set fresh := f.targets.eraseDups.filter (· ∉ seen) with hfresh
      have hmem : ∀ t, t ∈ fresh ↔ t ∈ f.targets ∧ t ∉ seen := by simp [hfresh]
      have hnodup' : (seen ++ fresh).Nodup := nodup_append_fresh hnodup fun _ hq => hq
      have hlt' : ∀ q ∈ seen ++ fresh, q < code.instructions.length := by
        intro q hq
        rcases List.mem_append.1 hq with hq | hq
        · exact hlt q hq
        · exact htargets q ((hmem q).1 hq).1
      have hqueue' : ∀ q ∈ queue ++ fresh, q ∈ seen ++ fresh := by
        intro q hq
        rcases List.mem_append.1 hq with hq | hq
        · exact List.mem_append_left _ (hqueue q hq)
        · exact List.mem_append_right _ hq
      have hlength : (seen ++ fresh).length ≤ code.instructions.length :=
        length_le_of_nodup hnodup' hlt'
      -- a fresh target takes as much room as it leaves
      have hcount' : (queue ++ fresh).length +
          (code.instructions.length - (seen ++ fresh).length) ≤ count := by
        simp only [List.length_append, List.length_cons] at hlength hcount ⊢
        omega
      obtain ⟨hqueued, hclosed⟩ := ih hnodup' hlt' hqueue' hcount' hrest
      have hfound : ∀ t, t ∈ fresh → ∃ g ∈ f :: rest, g.source = t := by
        intro t ht
        obtain ⟨g, hg, hgt⟩ := hqueued t (List.mem_append_right _ ht)
        exact ⟨g, List.mem_cons_of_mem _ hg, hgt⟩
      refine ⟨List.forall_mem_cons.2 ⟨⟨f, List.mem_cons_self, hsource⟩, ?_⟩,
        List.forall_mem_cons.2 ⟨?_, ?_⟩⟩
      · intro q hq
        obtain ⟨g, hg, hgq⟩ := hqueued q (List.mem_append_left _ hq)
        exact ⟨g, List.mem_cons_of_mem _ hg, hgq⟩
      · intro t ht
        by_cases hseen : t ∈ seen
        · exact .inl hseen
        · exact .inr (hfound t ((hmem t).2 ⟨ht, hseen⟩))
      · intro g hg t ht
        rcases hclosed g hg t ht with hseen | ⟨g', hg', hgt⟩
        · exact (List.mem_append.1 hseen).imp_right (hfound t)
        · exact .inr ⟨g', List.mem_cons_of_mem _ hg', hgt⟩

end

/-! ## The graph of a body -/

section

variable {code : Code} {g : FlowGraph}

theorem build_inv (h : build code = .ok g) :
    (code.instructions = [] ∧ g.flows = []) ∨
      0 < code.instructions.length ∧
        (∀ i, code.instructions[0]? = some i → i.opcode ≠ .moveException) ∧
        explore code code.addresses code.instructions.length [0] [0] = .ok g.flows := by
  unfold build at h
  dsimp only at h
  split at h
  · rename_i hnil
    cases h
    exact .inl ⟨hnil, rfl⟩
  · rename_i i is hcons
    split at h
    · cases h
    · rename_i hopcode
      obtain ⟨flows, hflows, h⟩ := bind_eq_ok h
      cases h
      exact .inr ⟨by simp [hcons], by simpa [hcons] using hopcode, hflows⟩

theorem build_addresses (h : build code = .ok g) : g.addresses = code.addresses := by
  unfold build at h
  dsimp only at h
  split at h
  · cases h
    rfl
  · split at h
    · cases h
    · obtain ⟨flows, -, h⟩ := bind_eq_ok h
      cases h
      rfl

theorem build_flows (h : build code = .ok g) : ∀ f ∈ g.flows, ∃ i,
    code.instructions[f.source]? = some i ∧
      flowOf code code.addresses f.source i = .ok f ∧
      checkSuccessors code code.addresses i.opcode f = .ok () := by
  rcases build_inv h with ⟨-, hnil⟩ | ⟨-, -, hexplore⟩
  · simp [hnil]
  · exact explore_flows hexplore

theorem passes_iff {count : Nat} (hg : g.WellFormed count) {ix t : Nat} :
    g.Passes ix t ↔ ∃ f ∈ g.flows, f.source = ix ∧ t ∈ f.targets := by
  unfold Passes
  rw [mem_successors hg, mem_handlers hg, ← exists_or]
  refine exists_congr fun f => ?_
  rw [Flow.targets, List.mem_append]
  tauto

/-- The instructions with a flow are the reachable ones. -/
theorem reachable_iff (h : build code = .ok g) {ix : Nat} (hix : ix < code.instructions.length) :
    g.Reachable ix ↔ ∃ f ∈ g.flows, f.source = ix := by
  have hg := build_wellFormed h
  obtain ⟨hnil, -⟩ | ⟨hpos, -, hexplore⟩ := build_inv h
  · simp [hnil] at hix
  obtain ⟨hqueued, hclosed⟩ := explore_complete (List.nodup_singleton 0) (by simpa using hpos)
    (fun q hq => hq) (by simp only [List.length_singleton]; omega) hexplore
  have hentry : ∃ f ∈ g.flows, f.source = 0 := hqueued 0 (List.mem_singleton_self 0)
  constructor
  · intro hreach
    clear hix
    induction hreach with
    | refl => exact hentry
    | tail _ hpass _ =>
      obtain ⟨f, hf, -, ht⟩ := (passes_iff hg).1 hpass
      rcases hclosed f hf _ ht with hseen | hfound
      · exact List.mem_singleton.1 hseen ▸ hentry
      · exact hfound
  · rintro ⟨f, hf, rfl⟩
    refine explore_sources (P := g.Reachable) ?_ hexplore ?_ f hf
    · intro q hq
      rw [List.mem_singleton.1 hq]
      exact Relation.ReflTransGen.refl
    · intro f hf hsource t ht
      exact Relation.ReflTransGen.tail hsource ((passes_iff hg).2 ⟨f, hf, rfl, ht⟩)

theorem nodup_predecessors {count : Nat} (hg : g.WellFormed count) (t : Nat) :
    (g.predecessors t).Nodup := by
  refine List.nodup_flatMap.2 ⟨fun f _ => nodup_edgesTo f t, ?_⟩
  refine (List.pairwise_map.1 hg.sources).imp ?_
  -- edges of different flows have different sources
  rintro f f' hne ⟨q, exceptional⟩ he he'
  exact hne ((mem_edgesTo.1 he).1.trans (mem_edgesTo.1 he').1.symm)

theorem nodup_targets {count : Nat} (hg : g.WellFormed count) (targets : Flow → List Nat)
    (hnodup : ∀ f ∈ g.flows, (targets f).Nodup) (ix : Nat) :
    (((g.flow? ix).map targets).getD []).Nodup := by
  cases hf : g.flow? ix with
  | none => exact List.nodup_nil
  | some f => exact hnodup f ((flow?_eq_some_iff hg).1 hf).1

/-- Only reachable instructions of the body have edges. -/
theorem Passes.source (h : build code = .ok g) {ix t : Nat} (hpass : g.Passes ix t) :
    ix < code.instructions.length ∧ g.Reachable ix := by
  obtain ⟨f, hf, rfl, -⟩ := (passes_iff (build_wellFormed h)).1 hpass
  obtain ⟨i, hi, -⟩ := build_flows h f hf
  have hlt := (List.getElem?_eq_some_iff.1 hi).1
  exact ⟨hlt, (reachable_iff h hlt).2 ⟨f, hf, rfl⟩⟩

theorem passes_of_mem_predecessors {count : Nat} (hg : g.WellFormed count) {t : Nat} {e : Edge}
    (he : e ∈ g.predecessors t) : g.Passes e.source t := by
  obtain ⟨q, exceptional⟩ := e
  cases exceptional with
  | false => exact .inl ((mem_predecessors_normal hg).1 he)
  | true => exact .inr ((mem_predecessors_exceptional hg).1 he)

theorem edges_of_not_reachable (h : build code = .ok g) {ix : Nat} (hix : ¬g.Reachable ix) :
    g.successors ix = [] ∧ g.handlers ix = [] ∧ g.predecessors ix = [] := by
  refine ⟨?_, ?_, ?_⟩
  · exact List.eq_nil_iff_forall_not_mem.2 fun t ht => hix (Passes.source h (.inl ht)).2
  · exact List.eq_nil_iff_forall_not_mem.2 fun t ht => hix (Passes.source h (.inr ht)).2
  · refine List.eq_nil_iff_forall_not_mem.2 fun e he => hix ?_
    have hpass := passes_of_mem_predecessors (build_wellFormed h) he
    exact Relation.ReflTransGen.tail (Passes.source h hpass).2 hpass

theorem flowOf_of_reachable (h : build code = .ok g) {ix : Nat} {i : Instruction}
    (hix : g.Reachable ix) (hi : code.instructions[ix]? = some i) :
    flowOf code code.addresses ix i = .ok ⟨ix, g.successors ix, g.handlers ix⟩ := by
  obtain ⟨f, hf, rfl⟩ := (reachable_iff h (List.getElem?_eq_some_iff.1 hi).1).1 hix
  obtain ⟨j, hj, hflow, -⟩ := build_flows h f hf
  cases hi.symm.trans hj
  rw [hflow, successors, handlers, (flow?_eq_some_iff (build_wellFormed h)).2 ⟨hf, rfl⟩]
  rfl

theorem build_faithful (h : build code = .ok g) : g.Faithful code := by
  have hg := build_wellFormed h
  have hnodup : ∀ f ∈ g.flows, f.successors.Nodup ∧ f.handlers.Nodup := by
    intro f hf
    obtain ⟨i, -, hflow, -⟩ := build_flows h f hf
    exact flowOf_nodup hflow
  refine {
    addresses := build_addresses h
    normal := fun ix s => (mem_predecessors_normal hg).symm
    exceptional := fun ix s => (mem_predecessors_exceptional hg).symm
    once := fun ix => ⟨nodup_targets hg _ (fun f hf => (hnodup f hf).1) ix,
      nodup_targets hg _ (fun f hf => (hnodup f hf).2) ix, nodup_predecessors hg ix⟩
    inside := fun ix i => flowOf_of_reachable h
    outside := fun ix => edges_of_not_reachable h
    range := ?_
    entry := ?_
    targets := ?_ }
  · intro ix t hpass
    obtain ⟨f, hf, -, ht⟩ := (passes_iff hg).1 hpass
    exact ⟨(Passes.source h hpass).1, hg.targets f hf t ht⟩
  · rcases build_inv h with ⟨hnil, -⟩ | ⟨-, hentry, -⟩
    · simp [hnil]
    · exact hentry
  · intro ix s i hs hi
    obtain ⟨f, hf, -, ht⟩ := (mem_successors hg).1 hs
    obtain ⟨j, -, -, hcheck⟩ := build_flows h f hf
    exact checkSuccessors_inv hcheck ht hi

end

end FlowGraph

/-- Whatever method is taken up, its graph holds the edges of the instructions
    that control can get to, and no others. -/
theorem MethodContext.graph_faithful {path : ClassPath} {cls : ClassDef} {m : MethodDef}
    {c : MethodContext} (h : MethodContext.of path cls m = .ok c) : c.graph.Faithful c.code :=
  FlowGraph.build_faithful (MethodContext.of_inv h).2.2.2.2.1

namespace Sample

/-- Branches to the next instruction, switches twice to the same one, and throws to
    a handler that the switch leads to as well. -/
def router : MethodDef :=
  { name := "route", prototype := ⟨["I"], "V"⟩, access := ⟨9⟩
    code := some
      { registers := 1
        instructions := [
          { opcode := .ifEqz, registers := [0], target := some 2 },
          { opcode := .packedSwitch, registers := [0], target := some 6 },
          { opcode := .throwValue, registers := [0] },
          { opcode := .const4, registers := [0], literal := some 0 },
          { opcode := .returnVoid },
          { opcode := .packedSwitchPayload, payload := some (.packedSwitch 0 [4, 4, 5]) }]
        tries := [⟨0, 8, [⟨none, 6⟩]⟩, ⟨5, 1, [⟨some "LBox;", 6⟩, ⟨none, 7⟩]⟩] } }

def routing : ClassDef := classDef "LRouting;" Descriptor.object [] [router]

end Sample

open Sample in
theorem router_edges :
    ∃ c, MethodContext.of (path [routing] ⟨[]⟩) routing router = .ok c ∧
      c.graph.flows =
        [⟨0, [1], []⟩, ⟨1, [2, 3, 4], []⟩, ⟨2, [], [3, 4]⟩, ⟨3, [4], []⟩, ⟨4, [], []⟩] ∧
      c.graph.predecessors 4 = [⟨1, false⟩, ⟨2, true⟩, ⟨3, false⟩] ∧
      c.graph.Faithful c.code := by
  obtain ⟨c, hc, hflows⟩ : ∃ c, MethodContext.of (path [routing] ⟨[]⟩) routing router = .ok c ∧
      c.graph.flows =
        [⟨0, [1], []⟩, ⟨1, [2, 3, 4], []⟩, ⟨2, [], [3, 4]⟩, ⟨3, [4], []⟩, ⟨4, [], []⟩] :=
    ⟨_, rfl, by decide⟩
  refine ⟨c, hc, hflows, ?_, MethodContext.graph_faithful hc⟩
  rw [FlowGraph.predecessors, hflows]
  decide

end SymbolicDex
