import Mathlib.Data.List.TakeWhile
import SymbolicDex.Prototype

/- The grammar of method prototypes. Parameters stand without separators, and a
   class name may hold any letter, bracket or parenthesis. They can be told apart
   because no type is the beginning of a longer one, and because the parenthesis
   that closes the list begins no type.

   What is proved:
     1. `Descriptor.splitFieldType_append`, `Descriptor.splitFieldType_inv`: a type is
        split off a text exactly if the text begins with it.
     2. `Prototype.splitParams_append`, `Prototype.splitParams_inv`: types are split
        off up to the closing parenthesis, no more and no fewer.
     3. `Prototype.parse_exact`: what is parsed is the grammar, and printing undoes
        it. -/
namespace SymbolicDex

/-! ## Types -/

namespace Descriptor

/-- A primitive letter, or a class name between `L` and the first semicolon, under
    any number of brackets. -/
inductive FieldType : List Char → Prop where
  | primitive {c : Char} (hc : c ∈ "ZBSCIJFD".toList) : FieldType [c]
  | named {name : List Char} (hne : name ≠ []) (hname : ∀ c ∈ name, c ≠ ';') :
    FieldType ('L' :: (name ++ [';']))
  | array {t : List Char} (ht : FieldType t) : FieldType ('[' :: t)

/-- Void, or a field type. -/
def ResultType (d : Descriptor) : Prop := d = "V" ∨ FieldType d.toList

theorem isPrimitiveLetter_iff (c : Char) : isPrimitiveLetter c = true ↔ c ∈ "ZBSCIJFD".toList := by
  simp [isPrimitiveLetter]

/-- A class name ends at the first semicolon. -/
theorem splitClassName_append {name : List Char} (hne : name ≠ []) (hname : ∀ c ∈ name, c ≠ ';')
    (rest : List Char) :
    splitClassName (name ++ [';'] ++ rest) = some (name ++ [';'], rest) := by
  have hall : ∀ c ∈ name, decide (c ≠ ';') = true := by simpa using hname
  unfold splitClassName
  rw [List.append_assoc, List.takeWhile_append_of_pos hall, List.dropWhile_append_of_pos hall]
  cases name with
  | nil => exact absurd rfl hne
  | cons c name => simp

theorem splitClassName_inv {cs t rest : List Char} (h : splitClassName cs = some (t, rest)) :
    ∃ name, name ≠ [] ∧ (∀ c ∈ name, c ≠ ';') ∧ t = name ++ [';'] ∧ cs = t ++ rest := by
  have hparts := List.takeWhile_append_dropWhile (p := (· ≠ ';')) (l := cs)
  have hbefore : ∀ c ∈ cs.takeWhile (· ≠ ';'), c ≠ ';' := fun c hc => by
    simpa using List.mem_takeWhile_imp hc
  have hafter := List.head?_dropWhile_not (· ≠ ';') cs
  unfold splitClassName at h
  split at h
  · cases h
  · cases h
  · rename_i semicolon after hrest hne
    cases h
    rw [hrest] at hparts hafter
    have hsemicolon : semicolon = ';' := by simpa using hafter
    refine ⟨_, hne, hbefore, by rw [hsemicolon], ?_⟩
    rw [List.append_assoc]
    exact hparts.symm

/-- A type in front of any text is split off. -/
theorem splitFieldType_append {t : List Char} (ht : FieldType t) (rest : List Char) :
    splitFieldType (t ++ rest) = some (t, rest) := by
  induction ht with
  | @primitive c hc =>
    have hbracket : c ≠ '[' := by rintro rfl; revert hc; decide
    have hclass : c ≠ 'L' := by rintro rfl; revert hc; decide
    rw [List.singleton_append, splitFieldType, if_neg hbracket, if_neg hclass,
      if_pos ((isPrimitiveLetter_iff c).2 hc)]
  | named hne hname =>
    rw [List.cons_append, splitFieldType, if_neg (by decide), if_pos rfl,
      splitClassName_append hne hname rest]
    rfl
  | array _ ih =>
    rw [List.cons_append, splitFieldType, if_pos rfl, ih]
    rfl

/-- What is split off is a type, and nothing else of the text is lost. -/
theorem splitFieldType_inv {cs t rest : List Char} (h : splitFieldType cs = some (t, rest)) :
    FieldType t ∧ cs = t ++ rest := by
  fun_induction splitFieldType cs generalizing t rest with
  | case1 => cases h
  | case2 cs ih =>
    obtain ⟨⟨t, rest⟩, hsplit, h⟩ := Option.map_eq_some_iff.1 h
    cases h
    obtain ⟨ht, rfl⟩ := ih hsplit
    exact ⟨.array ht, rfl⟩
  | case3 cs _ =>
    obtain ⟨⟨t, rest⟩, hsplit, h⟩ := Option.map_eq_some_iff.1 h
    cases h
    obtain ⟨name, hne, hname, rfl, rfl⟩ := splitClassName_inv hsplit
    exact ⟨.named hne hname, rfl⟩
  | case4 c cs _ _ hletter =>
    cases h
    exact ⟨.primitive ((isPrimitiveLetter_iff c).1 hletter), rfl⟩
  | case5 => cases h

end Descriptor

namespace Prototype

open Descriptor

/-! ## Parameters and result -/

/-- No type begins with the parenthesis that closes a list of parameters. -/
theorem splitFieldType_close (rest : List Char) : splitFieldType (')' :: rest) = none := by
  simp [splitFieldType, isPrimitiveLetter]

/-- The types up to a closing parenthesis, if there is a round for each. -/
theorem splitParams_append {count : Nat} {ts : List Descriptor} (hts : ∀ t ∈ ts, FieldType t.toList)
    (hcount : ts.length ≤ count) (rest : List Char) :
    splitParams count (ts.flatMap String.toList ++ ')' :: rest) = (ts, ')' :: rest) := by
  induction ts generalizing count with
  | nil =>
    cases count with
    | zero => rfl
    | succ count => rw [List.flatMap_nil, List.nil_append, splitParams, splitFieldType_close]
  | cons t ts ih =>
    obtain ⟨ht, hts⟩ := List.forall_mem_cons.1 hts
    cases count with
    | zero => cases hcount
    | succ count =>
      rw [List.flatMap_cons, List.append_assoc, splitParams, splitFieldType_append ht]
      dsimp only
      rw [ih hts (Nat.le_of_succ_le_succ hcount), String.ofList_toList]

theorem splitParams_inv {count : Nat} {cs rest : List Char} {ts : List Descriptor}
    (h : splitParams count cs = (ts, rest)) :
    (∀ t ∈ ts, FieldType t.toList) ∧ cs = ts.flatMap String.toList ++ rest := by
  induction count generalizing cs ts with
  | zero =>
    cases h
    exact ⟨fun _ ht => (nomatch ht), rfl⟩
  | succ count ih =>
    unfold splitParams at h
    split at h
    · cases h
      exact ⟨fun _ ht => (nomatch ht), rfl⟩
    · rename_i t after hsplit
      obtain ⟨ht, rfl⟩ := splitFieldType_inv hsplit
      rcases hrest : splitParams count after with ⟨us, after'⟩
      rw [hrest] at h
      cases h
      obtain ⟨hus, rfl⟩ := ih hrest
      refine ⟨List.forall_mem_cons.2 ⟨by rwa [String.toList_ofList], hus⟩, ?_⟩
      rw [List.flatMap_cons, String.toList_ofList, List.append_assoc]

/-- Void begins no field type, so it does not matter which is tried first. -/
theorem parseResult_eq_some {cs : List Char} {r : Descriptor} :
    parseResult cs = some r ↔ ResultType r ∧ r.toList = cs := by
  unfold parseResult ResultType
  constructor
  · intro h
    split at h
    · rename_i hvoid
      cases h
      exact ⟨.inl rfl, hvoid.symm⟩
    · split at h
      · rename_i t hsplit
        cases h
        obtain ⟨ht, hcs⟩ := splitFieldType_inv hsplit
        rw [String.toList_ofList]
        exact ⟨.inr ht, by rw [hcs, List.append_nil]⟩
      · cases h
  · rintro ⟨rfl | hr, rfl⟩
    · rfl
    · have hvoid : r.toList ≠ ['V'] := by
        intro h
        rw [h] at hr
        cases hr with
        | primitive hc => revert hc; decide
      have hsplit := splitFieldType_append hr []
      rw [List.append_nil] at hsplit
      rw [if_neg hvoid, hsplit]
      exact congrArg some String.ofList_toList

/-! ## Prototypes -/

/-- The parameters are field types and the result is one or void. -/
def Typed (p : Prototype) : Prop :=
  (∀ t ∈ p.params, FieldType t.toList) ∧ ResultType p.result

theorem toList_text (p : Prototype) :
    p.text.toList = '(' :: (p.params.flatMap String.toList ++ ')' :: p.result.toList) := by
  simp [text, String.toList_join]

/-- Every type has a letter, so there are no more of them than letters. -/
theorem length_le_flatMap {ts : List Descriptor} (hts : ∀ t ∈ ts, FieldType t.toList) :
    ts.length ≤ (ts.flatMap String.toList).length := by
  induction ts with
  | nil => exact Nat.zero_le _
  | cons t ts ih =>
    obtain ⟨ht, hts⟩ := List.forall_mem_cons.1 hts
    have hpos : 0 < t.toList.length := by
      cases hcs : t.toList with
      | nil =>
        rw [hcs] at ht
        cases ht
      | cons c cs => exact Nat.succ_pos _
    have hrest := ih hts
    rw [List.flatMap_cons, List.length_append, List.length_cons]
    omega

theorem parse?_eq_some {s : String} {p : Prototype} :
    parse? s = some p ↔ p.Typed ∧ p.text = s := by
  constructor
  · intro h
    unfold parse? at h
    split at h
    · rename_i cs hs
      split at h
      · rename_i params rest hsplit
        obtain ⟨r, hr, rfl⟩ := Option.map_eq_some_iff.1 h
        obtain ⟨hparams, rfl⟩ := splitParams_inv hsplit
        obtain ⟨hresult, rfl⟩ := parseResult_eq_some.1 hr
        refine ⟨⟨hparams, hresult⟩, String.toList_injective ?_⟩
        rw [toList_text, hs]
      · cases h
    · cases h
  · rintro ⟨⟨hparams, hresult⟩, rfl⟩
    have hcount : p.params.length ≤
        (p.params.flatMap String.toList ++ ')' :: p.result.toList).length := by
      have := length_le_flatMap hparams
      rw [List.length_append]
      omega
    unfold parse?
    rw [toList_text]
    simp only [splitParams_append hparams hcount]
    rw [parseResult_eq_some.2 ⟨hresult, rfl⟩]
    rfl

/-- A text is parsed exactly if it is a list of field types in parentheses and a
    result type after it; the prototype has these types and is printed as the
    text, and every prototype of such types is what its own text is parsed as. -/
theorem parse_exact (s : String) :
    ((∃ p, parse s = .ok p) ↔
      ∃ ts r, (∀ t ∈ ts, FieldType t.toList) ∧ ResultType r ∧
        s = "(" ++ String.join ts ++ ")" ++ r) ∧
    ∀ p : Prototype, parse s = .ok p ↔ p.Typed ∧ p.text = s := by
  have hparse (p : Prototype) : parse s = .ok p ↔ p.Typed ∧ p.text = s := by
    rw [← parse?_eq_some]
    unfold parse
    cases parse? s with
    | none => simp [Checked.fail]
    | some q => simp
  refine ⟨⟨?_, ?_⟩, hparse⟩
  · rintro ⟨p, hp⟩
    obtain ⟨⟨hparams, hresult⟩, rfl⟩ := (hparse p).1 hp
    exact ⟨p.params, p.result, hparams, hresult, rfl⟩
  · rintro ⟨ts, r, hts, hr, rfl⟩
    exact ⟨⟨ts, r⟩, (hparse ⟨ts, r⟩).2 ⟨⟨hts, hr⟩, rfl⟩⟩

end Prototype

end SymbolicDex
