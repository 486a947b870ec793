import InterfaceSchema.Proofs.Cutting
import InterfaceSchema.Source
import Mathlib.Logic.Relation

/-!
# Changes of layout

What is read from a text does not depend on how it is laid out. Carriage returns, tabs instead of
spaces and blanks around a line are gone in the plain form of the lines already. How tokens are
spread over lines, and how many spaces and empty lines there are between them, is lost when a block
is cut into tokens, as long as none of the lines involved is a marker. Trimming is not confined to
spaces, so a line must not be broken at a token that would lose a blank by it.

## Main definitions

* `LayoutChange` — one change in the layout of a text.
* `Extraction.tokens` — what of a state of reading matters for the interfaces that are read.
-/

namespace InterfaceSchema

/-! ## Changes -/

/-- A text without line ends. -/
def SingleLine (s : String) : Prop :=
  '\n' ∉ s.toList

instance (s : String) : Decidable (SingleLine s) :=
  inferInstanceAs (Decidable (_ ∉ _))

/-- A run of spaces. -/
def spaces (n : Nat) : String :=
  String.ofList (List.replicate n ' ')

/-- Whether a line is taken for a marker. -/
def Grammar.Marks (g : Grammar) (line : String) : Prop :=
  plainLine line = g.startMarker ∨ plainLine line = g.endMarker

instance (g : Grammar) (line : String) : Decidable (g.Marks line) :=
  inferInstanceAs (Decidable (_ ∨ _))

/-- The tokens of a part of a line, which is not trimmed. -/
def partTokens (part : String) : List String :=
  words ' ' (plain part.toList)

/-- Whether the last token of a part of a line, if it has one, does not end with a blank. -/
def EndsSolid (part : String) : Prop :=
  ∀ c ∈ (partTokens part).getLast?.bind (·.toList.getLast?), isBlank c = false

instance (part : String) : Decidable (EndsSolid part) :=
  Option.decidableForallMem _

/-- Whether the first token of a part of a line, if it has one, does not begin with a blank. -/
def BeginsSolid (part : String) : Prop :=
  ∀ c ∈ (partTokens part).head?.bind (·.toList.head?), isBlank c = false

instance (part : String) : Decidable (BeginsSolid part) :=
  Option.decidableForallMem _

/-- One change in the layout of a text. The last three kinds concern lines that are no markers, and
leave none. -/
inductive LayoutChange (g : Grammar) : String → String → Prop
  /-- A carriage return is put in anywhere. -/
  | carriageReturn (front back : String) :
    LayoutChange g (front ++ back) (front ++ "\r" ++ back)
  /-- A space becomes a tab anywhere. -/
  | tab (front back : String) :
    LayoutChange g (front ++ " " ++ back) (front ++ "\t" ++ back)
  /-- Blanks are put in front of a line. -/
  | blanksBefore (above below : List String) {line blanks : String} (hline : SingleLine line)
    (hblanks : Blanks blanks) :
    LayoutChange g ("\n".intercalate (above ++ [line] ++ below))
      ("\n".intercalate (above ++ [blanks ++ line] ++ below))
  /-- Blanks are put behind a line. -/
  | blanksBehind (above below : List String) {line blanks : String} (hline : SingleLine line)
    (hblanks : Blanks blanks) :
    LayoutChange g ("\n".intercalate (above ++ [line] ++ below))
      ("\n".intercalate (above ++ [line ++ blanks] ++ below))
  /-- A blank line is put in. -/
  | blankLine (above below : List String) (hne : above ++ below ≠ []) {blanks : String}
    (hblanks : Blanks blanks) (hnew : ¬g.Marks blanks) :
    LayoutChange g ("\n".intercalate (above ++ below))
      ("\n".intercalate (above ++ [blanks] ++ below))
  /-- A space becomes a longer run of spaces. -/
  | moreSpaces (above below : List String) {front back : String} (n : Nat)
    (hfront : SingleLine front) (hback : SingleLine back) (hold : ¬g.Marks (front ++ " " ++ back))
    (hnew : ¬g.Marks (front ++ spaces (n + 1) ++ back)) :
    LayoutChange g ("\n".intercalate (above ++ [front ++ " " ++ back] ++ below))
      ("\n".intercalate (above ++ [front ++ spaces (n + 1) ++ back] ++ below))
  /-- A line is broken at a space. -/
  | lineBreak (above below : List String) {front back : String} (hfront : SingleLine front)
    (hback : SingleLine back) (hends : EndsSolid front) (hbegins : BeginsSolid back)
    (hold : ¬g.Marks (front ++ " " ++ back)) (hfirst : ¬g.Marks front)
    (hsecond : ¬g.Marks back) :
    LayoutChange g ("\n".intercalate (above ++ [front ++ " " ++ back] ++ below))
      ("\n".intercalate (above ++ [front, back] ++ below))

theorem SingleLine.append {s t : String} (hs : SingleLine s) (ht : SingleLine t) :
    SingleLine (s ++ t) := by
  intro hmem
  rw [String.toList_append, List.mem_append] at hmem
  exact hmem.elim hs ht

theorem Blanks.single {blanks : String} (h : Blanks blanks) : SingleLine blanks :=
  h.not_newline

theorem blanks_spaces (n : Nat) : Blanks (spaces n) := by
  intro c hc
  obtain rfl : c = ' ' := by simpa using List.eq_of_mem_replicate (by simpa [spaces] using hc)
  decide

theorem plain_spaces (n : Nat) : plain (spaces n).toList = List.replicate n ' ' := by
  rw [spaces, String.toList_ofList, plain_eq_self] <;> simp

/-! ## Lines -/

theorem plainLines_of_single {line : String} (h : SingleLine line) :
    plainLines line = [plainLine line] := by
  rw [plainLines_eq, List.splitOn_eq_singleton h, List.map_singleton, String.ofList_toList]

/-- The lines of a text put together from texts on lines of their own. -/
theorem plainLines_intercalate_flatMap {texts : List String} (hne : texts ≠ []) :
    plainLines ("\n".intercalate texts) = texts.flatMap plainLines := by
  induction texts with
  | nil => exact absurd rfl hne
  | cons s rest ih =>
    rw [List.flatMap_cons]
    cases rest with
    | nil => simp
    | cons t rest => rw [String.intercalate_cons_cons, plainLines_append, ih (by simp)]

theorem flatMap_plainLines {lines : List String} (h : ∀ line ∈ lines, SingleLine line) :
    lines.flatMap plainLines = lines.map plainLine := by
  induction lines with
  | nil => rfl
  | cons line rest ih =>
    obtain ⟨hline, hrest⟩ := List.forall_mem_cons.1 h
    rw [List.flatMap_cons, List.map_cons, plainLines_of_single hline, ih hrest]
    rfl

theorem plainLines_between {above middle below : List String} (hne : above ++ middle ++ below ≠ [])
    (hmiddle : ∀ line ∈ middle, SingleLine line) :
    plainLines ("\n".intercalate (above ++ middle ++ below)) =
      above.flatMap plainLines ++ middle.map plainLine ++ below.flatMap plainLines := by
  rw [plainLines_intercalate_flatMap hne, List.flatMap_append, List.flatMap_append,
    flatMap_plainLines hmiddle]

theorem plainLines_congr {s t : String} (h : plain s.toList = plain t.toList) :
    plainLines s = plainLines t := by
  rw [plainLines, plainLines, h]

/-! ## Tokens of a line -/

theorem lineTokens_plainLine (line : String) :
    lineTokens (plainLine line) = words ' ' (trim (plain line.toList)) := by
  rw [lineTokens_eq, plainLine, String.toList_ofList]

/-- Behind a last token that ends solid there are only spaces. -/
theorem EndsSolid.exists_body {part : String} (h : EndsSolid part) :
    ∃ body gap, plain part.toList = body ++ gap ∧ (∀ c ∈ gap, c = ' ') ∧
      ∀ c ∈ body.getLast?, isBlank c = false := by
  set cs := plain part.toList with hcs
  have happend : cs.rdropWhile (· = ' ') ++ cs.rtakeWhile (· = ' ') = cs :=
    List.rdropWhile_append_rtakeWhile ..
  have hgap : ∀ c ∈ cs.rtakeWhile (· = ' '), c = ' ' :=
    fun c hc => by simpa using List.mem_rtakeWhile_imp hc
  refine ⟨cs.rdropWhile (· = ' '), cs.rtakeWhile (· = ' '), happend.symm, hgap, ?_⟩
  intro c hc
  obtain ⟨hne, rfl⟩ := List.mem_getLast?_eq_getLast hc
  have hspace : (cs.rdropWhile (· = ' ')).getLast? ≠ some ' ' := by
    rw [List.getLast?_eq_some_getLast hne]
    simpa using List.rdropWhile_last_not _ cs hne
  obtain ⟨word, hword, hnonempty, hsuffix⟩ := exists_getLast?_words hne hspace
  have hwords : partTokens part = words ' ' (cs.rdropWhile (· = ' ')) := by
    rw [partTokens, ← hcs, ← words_append_right hgap (cs.rdropWhile (· = ' ')), happend]
  have hlast : word.toList.getLast? = some ((cs.rdropWhile (· = ' ')).getLast hne) := by
    rw [List.getLast?_eq_some_getLast (by simpa using hnonempty), hsuffix.getLast]
  exact h _ (Option.bind_eq_some_iff.2 ⟨word, hwords ▸ hword, hlast⟩)

/-- In front of a first token that begins solid there are only spaces. -/
theorem BeginsSolid.exists_body {part : String} (h : BeginsSolid part) :
    ∃ gap body, plain part.toList = gap ++ body ∧ (∀ c ∈ gap, c = ' ') ∧
      ∀ c ∈ body.head?, isBlank c = false := by
  set cs := plain part.toList with hcs
  have happend : cs.takeWhile (· = ' ') ++ cs.dropWhile (· = ' ') = cs :=
    List.takeWhile_append_dropWhile
  have hgap : ∀ c ∈ cs.takeWhile (· = ' '), c = ' ' :=
    fun c hc => by simpa using List.mem_takeWhile_imp hc
  refine ⟨cs.takeWhile (· = ' '), cs.dropWhile (· = ' '), happend.symm, hgap, ?_⟩
  intro c hc
  have hne : cs.dropWhile (· = ' ') ≠ [] := by
    intro hnil
    simp [hnil] at hc
  have hspace : (cs.dropWhile (· = ' ')).head? ≠ some ' ' := by
    intro hhead
    have hnot := List.head?_dropWhile_not (· = ' ') cs
    simp [hhead] at hnot
  obtain ⟨word, hword, hnonempty, hprefix⟩ := exists_head?_words hne hspace
  have hwords : partTokens part = words ' ' (cs.dropWhile (· = ' ')) := by
    rw [partTokens, ← hcs, ← words_append_left hgap (cs.dropWhile (· = ' ')), happend]
  have hfirst : word.toList.head? = some c := by
    have hnil : word.toList ≠ [] := by simpa using hnonempty
    rw [List.head?_eq_some_head hnil, hprefix.head hnil]
    exact (List.head?_eq_some_head hne).symm.trans hc
  exact h _ (Option.bind_eq_some_iff.2 ⟨word, hwords ▸ hword, hfirst⟩)

theorem blank_of_spaces {gap : List Char} (h : ∀ c ∈ gap, c = ' ') :
    ∀ c ∈ gap, isBlank c = true := by
  intro c hc
  rw [h c hc]
  decide

/-- How many spaces there are between two parts of a line does not matter, also when trimming takes
part of them away. -/
theorem words_trim_gap {gap gap' : List Char} (hgap : ∀ c ∈ gap, c = ' ') (hne : gap ≠ [])
    (hgap' : ∀ c ∈ gap', c = ' ') (hne' : gap' ≠ []) (cs ds : List Char) :
    words ' ' (trim (cs ++ gap ++ ds)) = words ' ' (trim (cs ++ gap' ++ ds)) := by
  have hblank := blank_of_spaces hgap
  have hblank' := blank_of_spaces hgap'
  by_cases hcs : ∃ c ∈ cs, isBlank c = false
  · by_cases hds : ∃ c ∈ ds, isBlank c = false
    · rw [trim_between hcs gap hds, trim_between hcs gap' hds, words_append_gap hgap hne,
        words_append_gap hgap' hne']
    · -- nothing is left behind the gap
      have hall : ∀ c ∈ ds, isBlank c = true := by simpa using hds
      rw [trim_append_right _ hall, trim_append_right _ hall, trim_append_right _ hblank,
        trim_append_right _ hblank']
  · -- nothing is left in front of the gap
    have hall : ∀ c ∈ cs, isBlank c = true := by simpa using hcs
    rw [List.append_assoc, List.append_assoc, trim_append_left hall, trim_append_left hall,
      trim_append_left hblank, trim_append_left hblank']

/-- Between solid ends a line may be broken: each of its parts loses nothing by being trimmed on its
own. -/
theorem words_trim_break {cs gap ds : List Char} (hgap : ∀ c ∈ gap, c = ' ') (hne : gap ≠ [])
    (hends : ∀ c ∈ cs.getLast?, isBlank c = false) (hbegins : ∀ c ∈ ds.head?, isBlank c = false) :
    words ' ' (trim (cs ++ gap ++ ds)) = words ' ' (trim cs) ++ words ' ' (trim ds) := by
  have hblank := blank_of_spaces hgap
  rcases eq_or_ne cs [] with rfl | hcs
  · rw [List.nil_append, trim_append_left hblank]
    rfl
  rcases eq_or_ne ds [] with rfl | hds
  · rw [List.append_nil, trim_append_right _ hblank]
    exact (List.append_nil _).symm
  have hlast : isBlank (cs.getLast hcs) = false :=
    hends _ (List.getLast?_eq_some_getLast hcs)
  have hhead : isBlank (ds.head hds) = false :=
    hbegins _ (List.head?_eq_some_head hds)
  have hrdrop : (cs.dropWhile isBlank).rdropWhile isBlank = cs.dropWhile isBlank := by
    rw [List.rdropWhile_eq_self_iff]
    intro hrest
    rw [(List.dropWhile_suffix isBlank).getLast hrest, hlast]
    exact Bool.false_ne_true
  rw [trim_between ⟨_, List.getLast_mem hcs, hlast⟩ gap ⟨_, List.head_mem hds, hhead⟩,
    words_append_gap hgap hne, trim_eq, trim_eq, dropWhile_eq_self hbegins, hrdrop]

/-- A line has the same tokens with a longer run of spaces in it. -/
theorem lineTokens_moreSpaces (front back : String) (n : Nat) :
    lineTokens (plainLine (front ++ " " ++ back)) =
      lineTokens (plainLine (front ++ spaces (n + 1) ++ back)) := by
  simp only [lineTokens_plainLine, String.toList_append, plain_append, plain_spaces]
  exact words_trim_gap (by decide) (by decide) (fun c hc => List.eq_of_mem_replicate hc)
    (by simp) _ _

/-- The tokens of a line are those of its two parts if it is broken between solid ends. -/
theorem lineTokens_lineBreak {front back : String} (hends : EndsSolid front)
    (hbegins : BeginsSolid back) : lineTokens (plainLine (front ++ " " ++ back)) =
      lineTokens (plainLine front) ++ lineTokens (plainLine back) := by
  obtain ⟨body, gap, hbody, hgap, hlast⟩ := hends.exists_body
  obtain ⟨gap', body', hbody', hgap', hhead⟩ := hbegins.exists_body
  -- the spaces at the ends of the two parts lengthen the gap that the line is broken at
  have hbetween : ∀ c ∈ gap ++ [' '] ++ gap', c = ' ' := by
    simpa [or_imp, forall_and] using ⟨hgap, hgap'⟩
  have hline : plain (front ++ " " ++ back).toList = body ++ (gap ++ [' '] ++ gap') ++ body' := by
    rw [String.toList_append, String.toList_append, plain_append, plain_append, hbody, hbody',
      show plain " ".toList = [' '] from rfl]
    simp only [List.append_assoc]
  rw [lineTokens_plainLine, lineTokens_plainLine, lineTokens_plainLine, hline, hbody, hbody',
    trim_append_right body (blank_of_spaces hgap), trim_append_left (blank_of_spaces hgap')]
  exact words_trim_break hbetween (by simp) hlast hhead

/-! ## Tokens of a text -/

namespace Extraction

variable {g : Grammar}

/-- What of a state of reading matters for the interfaces that are read: the tokens of the closed
blocks, newest first, and inside a block the tokens captured in it. -/
def tokens (e : Extraction) : List (List String) × Option (List String) :=
  (e.closed.map Block.tokens, e.captured.map fun lines => Block.tokens ⟨lines.reverse⟩)

/-- What a line does to the tokens can be told from the tokens alone. -/
theorem tokens_line (e : Extraction) (l : String) : (e.line g l).tokens =
    if l = g.startMarker then (e.tokens.1, some (e.tokens.2.getD []))
    else if l = g.endMarker then
      match e.tokens.2 with
      | some tokens => (tokens :: e.tokens.1, none)
      | none => e.tokens
    else (e.tokens.1, e.tokens.2.map (· ++ lineTokens l)) := by
  obtain ⟨closed, captured⟩ := e
  unfold line
  split_ifs <;> cases captured <;> simp [tokens, Block.tokens]

theorem tokens_foldl_congr {e f : Extraction} (h : e.tokens = f.tokens) (lines : List String) :
    (lines.foldl (line g) e).tokens = (lines.foldl (line g) f).tokens := by
  induction lines generalizing e f with
  | nil => exact h
  | cons l rest ih =>
    apply ih
    rw [tokens_line, tokens_line, h]

/-- Lines that are no markers add their tokens to the block around them. -/
theorem tokens_foldl_of_unmarked {lines : List String}
    (h : ∀ l ∈ lines, l ≠ g.startMarker ∧ l ≠ g.endMarker) (e : Extraction) :
    (lines.foldl (line g) e).tokens =
      (e.tokens.1, e.tokens.2.map (· ++ lines.flatMap lineTokens)) := by
  induction lines generalizing e with
  | nil => simp
  | cons l rest ih =>
    obtain ⟨⟨hstart, hend⟩, hrest⟩ := List.forall_mem_cons.1 h
    rw [List.foldl_cons, ih hrest, tokens_line, if_neg hstart, if_neg hend, Option.map_map,
      List.flatMap_cons]
    simp only [Function.comp_def, List.append_assoc]

/-- Blocks are read from their tokens. -/
theorem blocks_map_interface (e : Extraction) : e.blocks.map (Block.interface g) =
    e.tokens.1.reverse.map fun tokens => (Declaration.ofTokens tokens).interface g := by
  simp only [blocks, tokens, ← List.map_reverse, List.map_map]
  rfl

theorem events_eq_nil_iff (e : Extraction) : e.events = [] ↔ e.tokens.2 = none := by
  obtain ⟨closed, captured⟩ := e
  cases captured <;> simp [events, unterminated?, tokens]

end Extraction

variable {g : Grammar}

/-- Lines that are no markers may be exchanged for others with the same tokens. -/
theorem tokens_extract_exchange {above below old new : List String}
    (hold : ∀ line ∈ old, SingleLine line ∧ ¬g.Marks line)
    (hnew : ∀ line ∈ new, SingleLine line ∧ ¬g.Marks line) (hne : above ++ old ++ below ≠ [])
    (hne' : above ++ new ++ below ≠ [])
    (htokens : (old.map plainLine).flatMap lineTokens = (new.map plainLine).flatMap lineTokens) :
    (extract g ("\n".intercalate (above ++ old ++ below))).tokens =
      (extract g ("\n".intercalate (above ++ new ++ below))).tokens := by
  have hunmarked : ∀ {lines : List String}, (∀ line ∈ lines, SingleLine line ∧ ¬g.Marks line) →
      ∀ l ∈ lines.map plainLine, l ≠ g.startMarker ∧ l ≠ g.endMarker := by
    intro lines hlines l hl
    obtain ⟨line, hline, rfl⟩ := List.mem_map.1 hl
    exact not_or.1 (hlines line hline).2
  rw [extract, extract, plainLines_between hne fun line hline => (hold line hline).1,
    plainLines_between hne' fun line hline => (hnew line hline).1]
  simp only [List.foldl_append]
  apply Extraction.tokens_foldl_congr
  rw [Extraction.tokens_foldl_of_unmarked (hunmarked hold),
    Extraction.tokens_foldl_of_unmarked (hunmarked hnew), htokens]

theorem tokens_extract_congr {text text' : String} (h : plainLines text = plainLines text') :
    (extract g text).tokens = (extract g text').tokens := by
  rw [extract, extract, h]

/-- A change of layout does not change the tokens of a text. -/
theorem LayoutChange.tokens_extract {text text' : String} (h : LayoutChange g text text') :
    (extract g text).tokens = (extract g text').tokens := by
  cases h with
  | carriageReturn front back =>
    apply tokens_extract_congr
    apply plainLines_congr
    simp [plain_append, plain_cons]
  | tab front back =>
    apply tokens_extract_congr
    apply plainLines_congr
    simp [plain_append, plain_cons]
  | @blanksBefore above below line blanks hline hblanks =>
    apply tokens_extract_congr
    rw [plainLines_between (by simp) (by simpa using hline),
      plainLines_between (by simp) (by simpa using hblanks.single.append hline)]
    simp [plainLine_append_left hblanks]
  | @blanksBehind above below line blanks hline hblanks =>
    apply tokens_extract_congr
    rw [plainLines_between (by simp) (by simpa using hline),
      plainLines_between (by simp) (by simpa using hline.append hblanks.single)]
    simp [plainLine_append_right hblanks]
  | @blankLine above below hne blanks hblanks hnew =>
    have hwhole : above ++ [] ++ below = above ++ below := by rw [List.append_nil]
    rw [← hwhole]
    refine tokens_extract_exchange (by simp) ?_ (hwhole ▸ hne) (by simp) ?_
    · simpa using ⟨hblanks.single, hnew⟩
    · rw [List.map_singleton, plainLine_of_blanks hblanks]
      rfl
  | @moreSpaces above below front back n hfront hback hold hnew =>
    refine tokens_extract_exchange ?_ ?_ (by simp) (by simp) ?_
    · simpa using ⟨(hfront.append (by decide)).append hback, hold⟩
    · simpa using ⟨(hfront.append (blanks_spaces _).single).append hback, hnew⟩
    · simpa using lineTokens_moreSpaces front back n
  | @lineBreak above below front back hfront hback hends hbegins hold hfirst hsecond =>
    refine tokens_extract_exchange ?_ ?_ (by simp) (by simp) ?_
    · simpa using ⟨(hfront.append (by decide)).append hback, hold⟩
    · simpa using ⟨⟨hfront, hfirst⟩, hback, hsecond⟩
    · simpa using lineTokens_lineBreak hends hbegins

/-- What is read from a text does not depend on its layout: after any number of changes, made or
taken back, the interfaces and the reports on them are the same, and so is whether a block is left
open. -/
theorem parseSource_of_layoutChanges {text text' : String}
    (h : Relation.EqvGen (LayoutChange g) text text') :
    (parseSource g text).1 = (parseSource g text').1 ∧
      (extract g text).blocks.map (Block.interface g) =
        (extract g text').blocks.map (Block.interface g) ∧
      ((extract g text).events = [] ↔ (extract g text').events = []) := by
  have htokens : (extract g text).tokens = (extract g text').tokens := by
    induction h with
    | rel _ _ hchange => exact hchange.tokens_extract
    | refl _ => rfl
    | symm _ _ _ ih => exact ih.symm
    | trans _ _ _ _ _ ih ih' => exact ih.trans ih'
  have hread : (extract g text).blocks.map (Block.interface g) =
      (extract g text').blocks.map (Block.interface g) := by
    rw [Extraction.blocks_map_interface, Extraction.blocks_map_interface, htokens]
  refine ⟨?_, hread, ?_⟩
  · rw [parseSource, parseSource, hread]
  · rw [Extraction.events_eq_nil_iff, Extraction.events_eq_nil_iff, htokens]

/-- Blanks in front of a marker, a broken line, an empty line between its parts, a longer gap, and a
carriage return that is taken away. -/
theorem parseSource_of_layoutChanges_broken :
    let text := "\n".intercalate
      ["/* SCHEMA */", "interface" ++ " " ++ "A \x7b", "id:" ++ " " ++ "string; \x7d",
        "/* END SCHEMA */\r"]
    let text' := "\n".intercalate
      ["\u2003" ++ "/* SCHEMA */", "interface", "\t", "A \x7b",
        "id:" ++ spaces 3 ++ "string; \x7d", "/* END SCHEMA */"]
    Relation.EqvGen (LayoutChange {}) text text' ∧
      (parseSource {} text).1 = (parseSource {} text').1 := by
  intro text text'
  let head := "interface" ++ " " ++ "A \x7b"
  let below := ["id:" ++ " " ++ "string; \x7d", "/* END SCHEMA */"]
  have hreturn : LayoutChange {} ("\n".intercalate (["/* SCHEMA */", head] ++ below)) text := by
    have hchange := LayoutChange.carriageReturn (g := {})
      ("\n".intercalate (["/* SCHEMA */", head] ++ below)) ""
    have htext : "\n".intercalate (["/* SCHEMA */", head] ++ below) ++ "\r" ++ "" = text := by
      decide +kernel
    rwa [htext, String.append_empty] at hchange
  have hbefore := @LayoutChange.blanksBefore {} [] (head :: below) "/* SCHEMA */" "\u2003"
    (by decide) (by decide)
  have hbreak := @LayoutChange.lineBreak {} ["\u2003" ++ "/* SCHEMA */"] below "interface" "A \x7b"
    (by decide) (by decide) (by decide) (by decide) (by decide) (by decide) (by decide)
  have hempty := @LayoutChange.blankLine {} ["\u2003" ++ "/* SCHEMA */", "interface"]
    ("A \x7b" :: below) (by decide) "\t" (by decide) (by decide)
  have hspaces := @LayoutChange.moreSpaces {}
    ["\u2003" ++ "/* SCHEMA */", "interface", "\t", "A \x7b"] ["/* END SCHEMA */"] "id:"
    "string; \x7d" 2 (by decide) (by decide) (by decide) (by decide)
  have hchanges : Relation.EqvGen (LayoutChange {}) text text' :=
    .trans _ _ _ (.symm _ _ (.rel _ _ hreturn)) <| .trans _ _ _ (.rel _ _ hbefore) <|
      .trans _ _ _ (.rel _ _ hbreak) <| .trans _ _ _ (.rel _ _ hempty) (.rel _ _ hspaces)
  exact ⟨hchanges, (parseSource_of_layoutChanges hchanges).1⟩

end InterfaceSchema
