import SymbolicDex.Partition.Store
import SymbolicDex.Proofs.Partition.GreedyShards

/- What writing a class list leaves in a store. Opening a file empties it, so two
   shards of one name would leave only the second; names are told apart by the
   number that stands at the same place in all of them.

   What is proved:
     1. `shardName_injective`: different shards have different names, whatever the
        base name is.
     2. `FileStore.get?_write`: writing a file changes that file and no other.
     3. `Partitioner.writeShards_outcome`: the files of a run are those written until
        a writer failed, the last of them perhaps in part.
     4. `Partitioner.write_keeps_shards`: the same for a class list that is
        partitioned first. -/
namespace SymbolicDex

/-! ## Names of shards -/

theorem repr_injective : Function.Injective Nat.repr := by
  intro i j h
  have hdigits : Nat.toDigits 10 i = Nat.toDigits 10 j := by
    rw [← Nat.toList_repr, h, Nat.toList_repr]
  calc
    i = Nat.ofDigitChars 10 (Nat.toDigits 10 i) 0 :=
      (Nat.ofDigitChars_toDigits (by decide) (by decide)).symm
    _ = Nat.ofDigitChars 10 (Nat.toDigits 10 j) 0 := by rw [hdigits]
    _ = j := Nat.ofDigitChars_toDigits (by decide) (by decide)

/-- All but the first name have their number at one place of the base name. -/
theorem shardName_numbered (base : String) :
    ∃ front back, base = front ++ back ∧
      ∀ index, index ≠ 0 → shardName base index = front ++ (index + 1).repr ++ back := by
  have hparts := List.takeWhile_append_dropWhile (p := (· ≠ '.')) (l := base.toList.reverse)
  unfold shardName
  cases hdot : base.toList.reverse.dropWhile (· ≠ '.') with
  | nil =>
    refine ⟨base, "", String.append_empty.symm, fun index hindex => ?_⟩
    simp [hindex]
  | cons dot before =>
    rw [hdot] at hparts
    refine ⟨String.ofList before.reverse,
      String.ofList (dot :: (base.toList.reverse.takeWhile (· ≠ '.')).reverse), ?_,
      fun index hindex => ?_⟩
    · apply String.toList_injective
      have hbase := congrArg List.reverse hparts
      simpa using hbase.symm
    · simp [hindex]

theorem shardName_injective (base : String) : Function.Injective (shardName base) := by
  obtain ⟨front, back, hbase, hname⟩ := shardName_numbered base
  -- a name with a number is longer than the base name
  have hfirst (index : Nat) (hindex : index ≠ 0) : shardName base index ≠ shardName base 0 := by
    intro h
    have hlength := congrArg (fun name => name.toList.length) h
    have hdigits : 0 < (index + 1).repr.toList.length := by
      rw [Nat.toList_repr]
      exact Nat.length_toDigits_pos
    rw [hname index hindex, show shardName base 0 = base from rfl] at hlength
    conv at hlength => rhs; rw [hbase]
    simp only [String.toList_append, List.length_append] at hlength
    omega
  intro i j h
  by_cases hi : i = 0 <;> by_cases hj : j = 0
  · rw [hi, hj]
  · exact absurd (hi ▸ h.symm) (hfirst j hj)
  · exact absurd (hj ▸ h) (hfirst i hi)
  · rw [hname i hi, hname j hj] at h
    have hnumber : (i + 1).repr = (j + 1).repr := by
      simpa using h
    have hsucc := repr_injective hnumber
    omega

/-! ## Files of a store -/

namespace FileStore

variable {store after : FileStore} {name : String} {bytes : List UInt8}

/-- Writing a file changes that file and no other. -/
theorem get?_write (store : FileStore) (name other : String) (bytes : List UInt8) :
    (store.write name bytes).get? other =
      if other = name then some bytes else store.get? other := by
  obtain ⟨files⟩ := store
  unfold write get?
  dsimp only
  induction files with
  | nil =>
    by_cases h : other = name
    · simp [insertFile, h]
    · simp [insertFile, h, Ne.symm h]
  | cons f fs ih =>
    unfold insertFile
    split
    · by_cases h : other = name
      · simp [h]
      · simp [h, Ne.symm h]
    · rename_i hsame
      have hname : name = f.1 := Std.LawfulEqCmp.eq_of_compare hsame
      by_cases h : other = name
      · simp [h]
      · rw [if_neg h, List.find?_cons_of_neg (by simpa using Ne.symm h),
          List.find?_cons_of_neg (by simpa [← hname] using Ne.symm h)]
    · rename_i hafter
      have hname : name ≠ f.1 := by
        rintro rfl
        simp at hafter
      by_cases hf : f.1 = other
      · have hother : other ≠ name := fun h => hname (h.symm.trans hf.symm)
        simp [hf, hother]
      · simpa [List.find?_cons, hf] using ih

/-- `after` holds the files and is otherwise what `store` was. -/
def Stored (store after : FileStore) (files : List (String × List UInt8)) : Prop :=
  (∀ f ∈ files, after.get? f.1 = some f.2) ∧
    ∀ name, name ∉ files.map (·.1) → after.get? name = store.get? name

theorem Stored.nil (store : FileStore) : store.Stored store [] := by
  simp [Stored]

/-- A file that none of the later ones has the name of stays as it was written. -/
theorem Stored.cons {files : List (String × List UInt8)}
    (h : (store.write name bytes).Stored after files) (hname : name ∉ files.map (·.1)) :
    store.Stored after ((name, bytes) :: files) := by
  refine ⟨List.forall_mem_cons.2 ⟨?_, h.1⟩, fun other hother => ?_⟩
  · rw [h.2 name hname, get?_write, if_pos rfl]
  · obtain ⟨hne, hrest⟩ := not_or.1 (mt List.mem_cons.2 hother)
    rw [h.2 other hrest, get?_write, if_neg hne]

end FileStore

/-! ## Runs of a writer -/

/-- What a writer leaves for each of the shards when it goes through them in
    order. A run stops at the first failure among these. -/
def ShardWriter.outputs {σ : Type} (writer : ShardWriter σ) : List Shard → σ → List Written
  | [], _ => []
  | s :: ss, memory =>
    let (written, memory) := (writer s).run memory
    written :: outputs writer ss memory

/-- The names of the shards with what was written for them. -/
def Shard.files (shards : List Shard) (written : List Written) : List (String × List UInt8) :=
  (shards.map (·.name)).zip (written.map (·.bytes))

/-- Writer number `k` is the first that fails, and `e` says why. -/
def Written.FirstFailure (written : List Written) (k : Nat) (e : Failure) : Prop :=
  (∃ w, written[k]? = some w ∧ w.failure = some e) ∧ ∀ w ∈ written.take k, w.failure = none

namespace Partitioner

section

variable {σ : Type} {writer : ShardWriter σ} {s : Shard} {ss : List Shard} {store : FileStore}
  {memory memory' : σ} {w : Written}

theorem outputs_cons (h : (writer s).run memory = (w, memory')) :
    writer.outputs (s :: ss) memory = w :: writer.outputs ss memory' := by
  rw [ShardWriter.outputs, h]

theorem length_outputs (writer : ShardWriter σ) (shards : List Shard) (memory : σ) :
    (writer.outputs shards memory).length = shards.length := by
  induction shards generalizing memory with
  | nil => rfl
  | cons s ss ih =>
    rcases hw : (writer s).run memory with ⟨w, memory'⟩
    rw [outputs_cons hw, List.length_cons, List.length_cons, ih]

/-- The run goes on, or ends, with what the writer left for the first shard. -/
theorem run_writeShards_cons (h : (writer s).run memory = (w, memory')) :
    (writeShards writer (s :: ss) store).run memory =
      let next := (writeShards writer ss (store.write s.name w.bytes)).run memory'
      match w.failure with
      | some e => ((.error (e.within ("writing " ++ s.name)), store.write s.name w.bytes), memory')
      | none => ((next.1.1.map (s.name :: ·), next.1.2), next.2) := by
  rw [writeShards, StateT.run_bind, h]
  cases hfailure : w.failure with
  | some e =>
    dsimp only [bind]
    rw [hfailure]
    rfl
  | none =>
    dsimp only [bind]
    rw [hfailure]
    rfl

end

/-- Either every writer succeeds and every shard is stored, or the shards up to
    the first failure are. -/
theorem writeShards_outcome {σ : Type} (writer : ShardWriter σ) {shards : List Shard}
    (hnames : (shards.map (·.name)).Nodup) (store : FileStore) (memory : σ) :
    let written := writer.outputs shards memory
    (∃ after, ((writeShards writer shards store).run memory).1 =
        (.ok (shards.map (·.name)), after) ∧
      (∀ w ∈ written, w.failure = none) ∧ store.Stored after (Shard.files shards written)) ∨
    ∃ k s e after, shards[k]? = some s ∧ Written.FirstFailure written k e ∧
      ((writeShards writer shards store).run memory).1 =
        (.error (e.within ("writing " ++ s.name)), after) ∧
      store.Stored after ((Shard.files shards written).take (k + 1)) := by
  induction shards generalizing store memory with
  | nil => exact .inl ⟨store, rfl, by simp [ShardWriter.outputs], FileStore.Stored.nil store⟩
  | cons s ss ih =>
    obtain ⟨hname, hrest⟩ := List.nodup_cons.1 hnames
    rcases hw : (writer s).run memory with ⟨w, memory'⟩
    have hfiles (written : List Written) : Shard.files (s :: ss) (w :: written) =
        (s.name, w.bytes) :: Shard.files ss written := rfl
    have hfresh (written : List Written) : s.name ∉ (Shard.files ss written).map (·.1) := by
      intro hmem
      obtain ⟨f, hf, hfname⟩ := List.mem_map.1 hmem
      have hshard := (List.of_mem_zip hf).1
      rw [hfname] at hshard
      exact hname hshard
    rw [outputs_cons hw]
    dsimp only
    rw [hfiles]
    cases hfailure : w.failure with
    | some e =>
      refine .inr ⟨0, s, e, _, rfl, ⟨⟨w, rfl, hfailure⟩, by simp⟩,
        by rw [run_writeShards_cons hw, hfailure], ?_⟩
      exact (FileStore.Stored.nil _).cons (by simp)
    | none =>
      rw [run_writeShards_cons hw, hfailure]
      dsimp only
      rcases ih hrest (store.write s.name w.bytes) memory' with
        ⟨after, hrun, hall, hstored⟩ | ⟨k, t, e, after, ht, ⟨hk, hbefore⟩, hrun, hstored⟩
      · refine .inl ⟨after, by rw [hrun]; rfl, List.forall_mem_cons.2 ⟨hfailure, hall⟩, ?_⟩
        exact hstored.cons (hfresh _)
      · refine .inr ⟨k + 1, t, e, after, ht, ⟨hk, List.forall_mem_cons.2 ⟨hfailure, hbefore⟩⟩,
          by rw [hrun]; rfl, ?_⟩
        refine hstored.cons (mt (fun hmem => ?_) (hfresh (writer.outputs ss memory')))
        exact ((List.take_sublist _ _).map Prod.fst).subset hmem

/-! ## Shards of a class list -/

theorem fill_named {p : Partitioner} {current : Shard} {cs : List ClassDef}
    (hcurrent : current.name = shardName p.base current.index) :
    ∀ shards, p.fill current cs = .ok shards →
      ∀ s ∈ shards, s.name = shardName p.base s.index := by
  fun_induction p.fill current cs with
  | case1 current =>
    rintro shards ⟨⟩ s hs
    split at hs
    · cases hs
    · rwa [List.mem_singleton.1 hs]
  | case2 current c cs _ ih => exact ih hcurrent
  | case3 => rintro shards ⟨⟩
  | case4 current c cs _ _ next _ ih =>
    intro shards h
    cases hrest : p.fill (next.add c) cs with
    | error e =>
      rw [hrest] at h
      cases h
    | ok rest =>
      rw [hrest] at h
      cases h
      exact List.forall_mem_cons.2 ⟨hcurrent, ih rfl rest hrest⟩
  | case5 => rintro shards ⟨⟩

/-- Shard number `i` has name number `i`, so no two have the same. -/
theorem partition_names {p : Partitioner} {classes : List ClassDef} {shards : List Shard}
    (h : p.partition classes = .ok shards) :
    shards.map (·.name) = (List.range shards.length).map (shardName p.base) ∧
      (shards.map (·.name)).Nodup := by
  have hnames : shards.map (·.name) = (List.range shards.length).map (shardName p.base) := by
    have hindices := (fill_ok IdPool.Exact.empty (absurd rfl) shards h).splits.indices
    rw [← hindices, List.map_map]
    exact List.map_congr_left (fill_named rfl shards h)
  refine ⟨hnames, ?_⟩
  rw [hnames]
  exact List.nodup_range.map (shardName_injective p.base)

/-- Names of shards are never shared. A class list that cannot be partitioned
    leaves the store alone; otherwise the names are in shard order, and the store
    gets what the writer left for every shard, or for those up to the first
    failure, and keeps all other files. -/
theorem write_keeps_shards {σ : Type} (p : Partitioner) (writer : ShardWriter σ)
    (classes : List ClassDef) (store : FileStore) (memory : σ) :
    (∀ base, Function.Injective (shardName base)) ∧
    ((∃ e, p.partition classes = .error e ∧
        ((p.writeWith writer classes store).run memory).1 = (.error e, store)) ∨
      ∃ shards, p.partition classes = .ok shards ∧
        let written := writer.outputs shards memory
        let names := (List.range shards.length).map (shardName p.base)
        written.length = shards.length ∧ shards.map (·.name) = names ∧ names.Nodup ∧
        ((∃ after, ((p.writeWith writer classes store).run memory).1 = (.ok names, after) ∧
            (∀ w ∈ written, w.failure = none) ∧
            store.Stored after (names.zip (written.map (·.bytes)))) ∨
          ∃ k e after, k < shards.length ∧ Written.FirstFailure written k e ∧
            ((p.writeWith writer classes store).run memory).1 =
              (.error (e.within ("writing " ++ shardName p.base k)), after) ∧
            store.Stored after ((names.zip (written.map (·.bytes))).take (k + 1)))) := by
  refine ⟨shardName_injective, ?_⟩
  unfold writeWith
  cases hpart : p.partition classes with
  | error e => exact .inl ⟨e, rfl, rfl⟩
  | ok shards =>
    obtain ⟨hnames, hnodup⟩ := partition_names hpart
    refine .inr ⟨shards, rfl, ?_⟩
    have houtcome := writeShards_outcome writer hnodup store memory
    unfold Shard.files at houtcome
    rw [hnames] at houtcome hnodup
    refine ⟨length_outputs writer shards memory, hnames, hnodup, ?_⟩
    rcases houtcome with h | ⟨k, s, e, after, hs, hfirst, hrun, hstored⟩
    · exact .inl h
    · have hk : k < shards.length := (List.getElem?_eq_some_iff.1 hs).1
      have hname : (shards.map (·.name))[k]? = some s.name := by rw [List.getElem?_map, hs]; rfl
      rw [hnames, List.getElem?_map, List.getElem?_range hk] at hname
      refine .inr ⟨k, e, after, hk, hfirst, ?_, hstored⟩
      rw [show shardName p.base k = s.name from Option.some.inj hname]
      exact hrun

end Partitioner

end SymbolicDex
