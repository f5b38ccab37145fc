import Mathlib.Data.List.TakeWhile
import SymbolicDex.InlineTable
import SymbolicDex.Proofs.PrototypeGrammar

/- Listings of inlined methods. A listing has a line for each method, in the order of
   their indices, and may have blank lines and comments anywhere. The grammar is given
   beside the reader, as a relation between the lines and the methods they stand for. A
   line is read back because each of its parts ends where the next one begins: a class
   at the first arrow, as a class without an arrow ends in a semicolon, and a name at
   the first parenthesis.

   What is proved:
     1. `Text.lines_intercalate`, `Text.trim_padded`: lines and the blanks around them.
     2. `Text.splitBefore_first`: a mark is found where it stands first.
     3. `InlineTable.splitLine_entry`: the parts of a line.
     4. `InlineTable.parse_listing`: a listing is read as the methods it lists. -/
namespace SymbolicDex

/-! ## Lines and marks -/

namespace Text

variable {before core after line rest : List Char}

theorem lines_of_line (h : '\n' ∉ line) : lines line = [line] := by
  induction line with
  | nil => rfl
  | cons c cs ih =>
    simp only [List.mem_cons, not_or] at h
    simp only [lines, if_neg (Ne.symm h.1), ih h.2]

theorem lines_append (h : '\n' ∉ line) (rest : List Char) :
    lines (line ++ '\n' :: rest) = line :: lines rest := by
  induction line with
  | nil => simp [lines]
  | cons c cs ih =>
    simp only [List.mem_cons, not_or] at h
    simp only [List.cons_append, lines, if_neg (Ne.symm h.1), ih h.2]

/-- Lines that are put together with line feeds are the lines of the text. -/
theorem lines_intercalate {ls : List (List Char)} (hne : ls ≠ []) (h : ∀ l ∈ ls, '\n' ∉ l) :
    lines (List.intercalate ['\n'] ls) = ls := by
  induction ls with
  | nil => exact absurd rfl hne
  | cons l ls ih =>
    obtain ⟨hl, hls⟩ := List.forall_mem_cons.1 h
    cases ls with
    | nil => rw [List.intercalate_singleton, lines_of_line hl]
    | cons l' ls =>
      rw [List.intercalate_cons_cons, List.append_assoc, List.singleton_append,
        lines_append hl, ih (List.cons_ne_nil l' ls) hls]

theorem dropWhile_of_head {p : Char → Bool} {first : Char} (h : rest.head? = some first)
    (hp : p first = false) : rest.dropWhile p = rest := by
  cases rest with
  | nil => rfl
  | cons c cs =>
    cases h
    rw [List.dropWhile_cons, if_neg (by simp [hp])]

/-- Blanks around a text that neither begins nor ends with one are dropped. -/
theorem trim_padded {first last : Char} (hbefore : ∀ c ∈ before, isBlank c = true)
    (hafter : ∀ c ∈ after, isBlank c = true) (hhead : core.head? = some first)
    (hfirst : isBlank first = false) (hend : core.getLast? = some last)
    (hlast : isBlank last = false) : trim (before ++ core ++ after) = core := by
  have hstart : (core ++ after).head? = some first := by simp [List.head?_append, hhead]
  have hstop : core.reverse.head? = some last := by rw [List.head?_reverse, hend]
  have hafter' : ∀ c ∈ after.reverse, isBlank c = true := by simpa using hafter
  rw [trim, List.append_assoc, List.dropWhile_append_of_pos hbefore,
    dropWhile_of_head hstart hfirst, List.reverse_append,
    List.dropWhile_append_of_pos hafter', dropWhile_of_head hstop hlast, List.reverse_reverse]

/-- A mark is found where it stands first: no end of what comes before begins one. -/
theorem splitBefore_first {mark : List Char}
    (h : ∀ s, s ≠ [] → s <:+ before → ¬ mark <+: s ++ (mark ++ rest)) :
    splitBefore mark (before ++ (mark ++ rest)) = some (before, mark ++ rest) := by
  induction before with
  | nil =>
    cases hcs : mark ++ rest with
    | nil =>
      have hmark : mark = [] := (List.append_eq_nil_iff.1 hcs).1
      simp [splitBefore, hmark]
    | cons c cs =>
      have hprefix : mark.isPrefixOf (c :: cs) = true := by
        rw [List.isPrefixOf_iff_prefix, ← hcs]
        exact List.prefix_append mark rest
      rw [List.nil_append, splitBefore, if_pos hprefix]
  | cons c cs ih =>
    have hlater : mark.isPrefixOf (c :: (cs ++ (mark ++ rest))) ≠ true := by
      rw [ne_eq, List.isPrefixOf_iff_prefix]
      exact h (c :: cs) (List.cons_ne_nil c cs) List.suffix_rfl
    rw [List.cons_append, splitBefore, if_neg hlater, ih]
    · rfl
    · intro s hne hs
      exact h s hne (hs.trans (List.suffix_cons c cs))

theorem splitBefore_letter {mark : Char} (h : mark ∉ before) (rest : List Char) :
    splitBefore [mark] (before ++ mark :: rest) = some (before, mark :: rest) := by
  apply splitBefore_first
  intro s hne hs hprefix
  obtain ⟨c, cs, rfl⟩ := List.exists_cons_of_ne_nil hne
  have hc : mark = c := (List.cons_prefix_cons.1 hprefix).1
  exact h (hs.subset (hc ▸ List.mem_cons_self))

/-- An arrow is not begun by the text before it, if that ends in no dash. -/
theorem splitBefore_arrow (h : ¬ ['-', '>'] <:+: before) (hlast : before.getLast? ≠ some '-')
    (rest : List Char) :
    splitBefore ['-', '>'] (before ++ '-' :: '>' :: rest) = some (before, '-' :: '>' :: rest) := by
  show splitBefore ['-', '>'] (before ++ (['-', '>'] ++ rest)) = some (before, ['-', '>'] ++ rest)
  apply splitBefore_first
  intro s hne hs hprefix
  -- an arrow begun before its place begins with the last letter, or lies inside
  match s, hne, hs, hprefix with
  | [c], _, hs, hprefix =>
    have hc : '-' = c := (List.cons_prefix_cons.1 hprefix).1
    obtain ⟨t, rfl⟩ := hs
    exact hlast (by rw [List.getLast?_concat, hc])
  | c :: d :: ds, _, hs, hprefix =>
    simp only [List.cons_append, List.cons_prefix_cons, List.nil_prefix, and_true] at hprefix
    obtain ⟨rfl, rfl⟩ := hprefix
    have hmark : ['-', '>'] <:+: '-' :: '>' :: ds := (List.prefix_append ['-', '>'] ds).isInfix
    exact h (hmark.trans hs.isInfix)

end Text

/-! ## Methods as a line names them -/

namespace Descriptor

/-- `L`, a name, and the semicolon that ends it. -/
def IsNamed (d : Descriptor) : Prop :=
  ∃ name, name ≠ [] ∧ ';' ∉ name ∧ d.toList = 'L' :: (name ++ [';'])

theorem FieldType.last {t : List Char} (ht : FieldType t) :
    ∃ c, t.getLast? = some c ∧ Text.isBlank c = false := by
  induction ht with
  | @primitive c hc =>
    have hletters : "ZBSCIJFD".toList.all (fun c => !Text.isBlank c) = true := by decide
    exact ⟨c, rfl, by simpa using List.all_eq_true.1 hletters c hc⟩
  | named _ _ =>
    refine ⟨';', ?_, by decide⟩
    rw [← List.cons_append, List.getLast?_concat]
  | array _ ih =>
    obtain ⟨c, hlast, hc⟩ := ih
    exact ⟨c, by simp [List.getLast?_cons, hlast], hc⟩

end Descriptor

namespace Prototype

open Descriptor

theorem parse_text {p : Prototype} (hp : p.Typed) : parse p.text = .ok p := by
  have hparsed : parse? p.text = some p := parse?_eq_some.2 ⟨hp, rfl⟩
  unfold parse
  rw [hparsed]

theorem text_last {p : Prototype} (hp : p.Typed) :
    ∃ c, p.text.toList.getLast? = some c ∧ Text.isBlank c = false := by
  have hresult : ∃ c, p.result.toList.getLast? = some c ∧ Text.isBlank c = false := by
    cases hp.2 with
    | inl hvoid => exact ⟨'V', by rw [hvoid]; rfl, by decide⟩
    | inr htype => exact htype.last
  obtain ⟨c, hlast, hc⟩ := hresult
  refine ⟨c, ?_, hc⟩
  rw [toList_text]
  simp [List.getLast?_cons, List.getLast?_append, hlast]

end Prototype

/-- What a line can name: a class without an arrow, a name up to the parenthesis that
    opens a prototype, and nothing that ends the line. Other blanks do no harm. -/
structure MethodRef.Listable (m : MethodRef) : Prop where
  owner : m.owner.IsNamed
  noArrow : ¬ "->".toList <:+: m.owner.toList
  name : '(' ∉ m.name.toList
  prototype : m.prototype.Typed
  oneLine : '\n' ∉ m.text.toList

namespace MethodRef

variable {m : MethodRef}

theorem toList_text (m : MethodRef) : m.text.toList =
    m.owner.toList ++ '-' :: '>' :: (m.name.toList ++ m.prototype.text.toList) := by
  simp [text]

theorem Listable.head (h : m.Listable) : m.text.toList.head? = some 'L' := by
  obtain ⟨name, -, -, howner⟩ := h.owner
  rw [toList_text, howner]
  rfl

theorem Listable.last (h : m.Listable) :
    ∃ c, m.text.toList.getLast? = some c ∧ Text.isBlank c = false := by
  obtain ⟨c, hlast, hc⟩ := Prototype.text_last h.prototype
  refine ⟨c, ?_, hc⟩
  rw [toList_text]
  simp [List.getLast?_cons, List.getLast?_append, hlast]

end MethodRef

/-! ## Listings -/

/-- The word for a kind of call. -/
def CallKind.word : CallKind → String
  | static => "static"
  | virtual => "virtual"
  | direct => "direct"

namespace InlineTable

open Text

/-- Blanks, none of which ends the line. A carriage return is one. -/
def Padding (cs : List Char) : Prop := ∀ c ∈ cs, isBlank c = true ∧ c ≠ '\n'

instance (cs : List Char) : Decidable (Padding cs) :=
  List.decidableBAll (fun c => isBlank c = true ∧ c ≠ '\n') cs

/-- The kind of call in front of a method: its word and one or more spaces or tabs. A
    virtual call needs none. -/
inductive Keyword : CallKind → List Char → Prop where
  | omitted : Keyword .virtual []
  | written (kind : CallKind) {gap : List Char} (hne : gap ≠ [])
      (hgap : ∀ c ∈ gap, isSeparator c = true) : Keyword kind (kind.word.toList ++ gap)

/-- A line that lists a method. -/
inductive Entry (m : InlineMethod) : List Char → Prop where
  | mk {before keyword after : List Char} (hbefore : Padding before)
      (hkeyword : Keyword m.kind keyword) (hafter : Padding after) :
      Entry m (before ++ (keyword ++ m.method.text.toList) ++ after)

/-- A line that lists nothing. -/
inductive Remark : List Char → Prop where
  | blank {pad : List Char} (hpad : Padding pad) : Remark pad
  | comment {pad words : List Char} (hpad : Padding pad) (hwords : '\n' ∉ words) :
      Remark (pad ++ '#' :: words)

/-- Lines that list some methods in order. -/
inductive Listing : List (List Char) → List InlineMethod → Prop where
  | nil : Listing [] []
  | remark {line : List Char} {lines : List (List Char)} {methods : List InlineMethod}
      (hline : Remark line) (hlines : Listing lines methods) : Listing (line :: lines) methods
  | entry {m : InlineMethod} {line : List Char} {lines : List (List Char)}
      {methods : List InlineMethod} (hm : m.method.Listable) (hline : Entry m line)
      (hlines : Listing lines methods) : Listing (line :: lines) (m :: methods)

/-- A text whose lines list some methods in order. -/
def Lists (text : String) (methods : List InlineMethod) : Prop :=
  ∃ lines, Listing lines methods ∧ text.toList = List.intercalate ['\n'] lines

/-! ## One line -/

section

variable {m : InlineMethod} {kind : CallKind} {keyword line rest : List Char}

theorem Padding.blanks (h : Padding line) : ∀ c ∈ line, isBlank c = true :=
  fun c hc => (h c hc).1

theorem Padding.oneLine (h : Padding line) : '\n' ∉ line :=
  fun hmem => (h '\n' hmem).2 rfl

/-- A class begins no word for a kind of call. -/
theorem splitKind_class (hrest : rest.head? = some 'L') : splitKind rest = none := by
  cases rest with
  | nil => cases hrest
  | cons c cs =>
    cases hrest
    simp [splitKind]

theorem splitKind_written {gap : List Char} (kind : CallKind) (hne : gap ≠ [])
    (hgap : ∀ c ∈ gap, isSeparator c = true) (hrest : rest.head? = some 'L') :
    splitKind (kind.word.toList ++ gap ++ rest) = some (kind, rest) := by
  obtain ⟨g, gs, rfl⟩ := List.exists_cons_of_ne_nil hne
  obtain ⟨hg, hgs⟩ := List.forall_mem_cons.1 hgap
  have hdrop : (gs ++ rest).dropWhile isSeparator = rest := by
    rw [List.dropWhile_append_of_pos hgs, dropWhile_of_head hrest (by decide)]
  have hstatic : "static".length = 6 := rfl
  have hvirtual : "virtual".length = 7 := rfl
  have hdirect : "direct".length = 6 := rfl
  cases kind <;>
    simp [splitKind, CallKind.word, hstatic, hvirtual, hdirect, hg, hdrop]

/-- With or without its word, the kind is read and the method is left. -/
theorem Keyword.split (h : Keyword kind keyword) (hrest : rest.head? = some 'L') :
    (splitKind (keyword ++ rest)).getD (.virtual, keyword ++ rest) = (kind, rest) := by
  cases h with
  | omitted => rw [List.nil_append, splitKind_class hrest, Option.getD_none]
  | written _ hne hgap => rw [splitKind_written kind hne hgap hrest, Option.getD_some]

/-- A line without its padding begins with a letter. -/
theorem Keyword.head (h : Keyword kind keyword) (hrest : rest.head? = some 'L') :
    ∃ c, (keyword ++ rest).head? = some c ∧ isBlank c = false ∧ c ≠ '#' := by
  cases h with
  | omitted => exact ⟨'L', hrest, by decide, by decide⟩
  | written _ hne hgap => cases kind <;> exact ⟨_, rfl, by decide, by decide⟩

theorem Keyword.oneLine (h : Keyword kind keyword) : '\n' ∉ keyword := by
  cases h with
  | omitted => exact List.not_mem_nil
  | written _ hne hgap =>
    intro hmem
    rw [List.mem_append] at hmem
    cases hmem with
    | inl hword => cases kind <;> exact absurd hword (by decide)
    | inr hfeed => exact absurd (hgap _ hfeed) (by decide)

/-- The parts of a line are those it was put together from. -/
theorem splitLine_entry (hm : m.method.Listable) (hkeyword : Keyword m.kind keyword) :
    splitLine (keyword ++ m.method.text.toList) =
      some (m.kind, m.method.owner.toList, m.method.name.toList,
        m.method.prototype.text.toList) := by
  obtain ⟨name, -, -, howner⟩ := hm.owner
  -- the arrow is not begun by the end of the class, which is its semicolon
  have hlast : m.method.owner.toList.getLast? ≠ some '-' := by
    rw [howner, ← List.cons_append, List.getLast?_concat]
    decide
  have hafter : m.method.prototype.text.toList = '(' ::
      (m.method.prototype.params.flatMap String.toList ++
        ')' :: m.method.prototype.result.toList) := Prototype.toList_text _
  unfold splitLine
  rw [hkeyword.split hm.head]
  simp only [dropWhile_of_head hm.head (by decide : isSeparator 'L' = false)]
  rw [MethodRef.toList_text, splitBefore_arrow hm.noArrow hlast]
  simp only [Option.bind_eq_bind, Option.bind_some, List.drop_succ_cons, List.drop_zero]
  rw [hafter, splitBefore_letter hm.name]
  rfl

theorem parseLine_entry (hm : m.method.Listable) (hkeyword : Keyword m.kind keyword)
    (number : Nat) : parseLine number (keyword ++ m.method.text.toList) = .ok m := by
  unfold parseLine
  rw [splitLine_entry hm hkeyword]
  simp only [String.ofList_toList, Prototype.parse_text hm.prototype]
  rfl

theorem trim_entry (hm : m.method.Listable) (hline : Entry m line) :
    ∃ keyword, Keyword m.kind keyword ∧ trim line = keyword ++ m.method.text.toList := by
  cases hline with
  | @mk before keyword after hbefore hkeyword hafter =>
    obtain ⟨first, hhead, hfirst, -⟩ := hkeyword.head hm.head
    obtain ⟨last, hend, hlast⟩ := hm.last
    refine ⟨keyword, hkeyword, ?_⟩
    exact trim_padded hbefore.blanks hafter.blanks hhead hfirst
      (by simp [List.getLast?_append, hend]) hlast

/-- A line that lists nothing is blank or begins with the mark of a comment. -/
theorem trim_remark (h : Remark line) :
    (trim line).isEmpty = true ∨ (trim line).head? = some '#' := by
  cases h with
  | blank hpad =>
    left
    rw [trim, List.dropWhile_eq_nil_iff.2 hpad.blanks]
    rfl
  | @comment pad words hpad hwords =>
    right
    have hstart : ('#' :: words).dropWhile isBlank = '#' :: words :=
      dropWhile_of_head rfl (by decide)
    rw [trim, List.dropWhile_append_of_pos hpad.blanks, hstart, List.reverse_cons]
    -- dropping from the end stops at the mark at the latest
    obtain ⟨kept, hkept⟩ : ∃ kept, (words.reverse ++ ['#']).dropWhile isBlank = kept ++ ['#'] := by
      rw [List.dropWhile_append]
      split
      · exact ⟨[], rfl⟩
      · exact ⟨_, rfl⟩
    rw [hkept, List.reverse_append]
    rfl

end

/-! ## Whole listings -/

theorem Listing.oneLine {lines : List (List Char)} {methods : List InlineMethod}
    (h : Listing lines methods) : ∀ line ∈ lines, '\n' ∉ line := by
  induction h with
  | nil => exact fun _ hmem => absurd hmem List.not_mem_nil
  | remark hline _ ih =>
    refine List.forall_mem_cons.2 ⟨?_, ih⟩
    cases hline with
    | blank hpad => exact hpad.oneLine
    | comment hpad hwords => simp [hpad.oneLine, hwords]
  | entry hm hline _ ih =>
    refine List.forall_mem_cons.2 ⟨?_, ih⟩
    cases hline with
    | mk hbefore hkeyword hafter =>
      simp [hbefore.oneLine, hkeyword.oneLine, hm.oneLine, hafter.oneLine]

/-- Line by line, a listing is read as the methods it lists. -/
theorem parseLines_listing {lines : List (List Char)} {methods : List InlineMethod}
    (h : Listing lines methods) (number : Nat) : parseLines number lines = .ok methods := by
  induction h generalizing number with
  | nil => rfl
  | remark hline _ ih =>
    rw [parseLines, if_pos (trim_remark hline)]
    exact ih (number + 1)
  | @entry m line lines methods hm hline _ ih =>
    obtain ⟨keyword, hkeyword, htrim⟩ := trim_entry hm hline
    obtain ⟨c, hhead, -, hc⟩ := hkeyword.head hm.head
    have hkept : ¬((keyword ++ m.method.text.toList).isEmpty = true ∨
        (keyword ++ m.method.text.toList).head? = some '#') := by
      obtain ⟨cs, hcs⟩ := List.head?_eq_some_iff.1 hhead
      simp [hcs, hc]
    rw [parseLines, htrim, if_neg hkept, parseLine_entry hm hkeyword, ih (number + 1)]
    rfl

/-- A listing is read, and the table answers to every index with the method that is
    listed there, and with none past the last one. -/
theorem parse_listing {text : String} {methods : List InlineMethod} (h : Lists text methods) :
    ∃ table, parse text = .ok table ∧ ∀ index, table.method? index = methods[index]? := by
  obtain ⟨lines, hlines, htext⟩ := h
  have hread : parseLines 1 (Text.lines text.toList) = .ok methods := by
    by_cases hne : lines = []
    · subst hne
      cases hlines
      rw [htext]
      rfl
    · rw [htext, lines_intercalate hne hlines.oneLine]
      exact parseLines_listing hlines 1
  refine ⟨⟨methods⟩, ?_, fun _ => rfl⟩
  unfold parse
  rw [hread]
  rfl

/-- Two methods under a comment and a blank line: a static one with blanks on all sides,
    and a virtual one whose name holds an arrow. -/
theorem parse_listing_custom :
    let abs : InlineMethod := ⟨.static, "Ljava/lang/Math;", "abs", ⟨["I"], "I"⟩⟩
    let link : InlineMethod := ⟨.virtual, "Lp/Q;", "a->b", ⟨[], "V"⟩⟩
    let text := "# own\n\n\tstatic \tLjava/lang/Math;->abs(I)I \r\nLp/Q;->a->b()V"
    Lists text [abs, link] ∧ ∃ table, parse text = .ok table ∧
      table.method? 0 = some abs ∧ table.method? 1 = some link ∧ table.method? 2 = none := by
  intro abs link text
  have hint : Descriptor.FieldType "I".toList := .primitive (by decide)
  have habs : abs.method.Listable := {
    owner := ⟨"java/lang/Math".toList, by decide +kernel, by decide +kernel, by decide +kernel⟩
    noArrow := by decide +kernel
    name := by decide +kernel
    prototype := ⟨fun t ht => List.mem_singleton.1 ht ▸ hint, .inr hint⟩
    oneLine := by decide +kernel }
  have hlink : link.method.Listable := {
    owner := ⟨"p/Q".toList, by decide +kernel, by decide +kernel, by decide +kernel⟩
    noArrow := by decide +kernel
    name := by decide +kernel
    prototype := ⟨fun t ht => absurd ht List.not_mem_nil, .inl rfl⟩
    oneLine := by decide +kernel }
  have hnone : Padding [] := by decide
  have hcomment : Remark "# own".toList :=
    @Remark.comment [] " own".toList hnone (by decide +kernel)
  have hlines : Listing
      ["# own".toList, [],
        ['\t'] ++ ("static".toList ++ [' ', '\t'] ++ abs.method.text.toList) ++ [' ', '\r'],
        [] ++ ([] ++ link.method.text.toList) ++ []] [abs, link] := by
    refine .remark hcomment (.remark (.blank hnone) (.entry habs ?_ (.entry hlink ?_ .nil)))
    · have hgap : ∀ c ∈ [' ', '\t'], isSeparator c = true := List.all_eq_true.1 (by decide)
      exact .mk (by decide) (.written .static (by decide) hgap) (by decide)
    · exact .mk hnone .omitted hnone
  have hlists : Lists text [abs, link] := ⟨_, hlines, by decide +kernel⟩
  obtain ⟨table, hparse, htable⟩ := parse_listing hlists
  exact ⟨hlists, table, hparse, htable 0, htable 1, htable 2⟩

end InlineTable

end SymbolicDex
