import InterfaceSchema.Proofs.Reprinting
import Mathlib.Data.Nat.Find

/-!
# Blocks by line numbers

Reading line by line finds the blocks that the markers of a text span. A block reaches from the
first start marker behind the block before it to the first end marker behind that, and holds what
stands between the two, without further start markers. What decides is where the markers stand; the
state of reading does not show in the description.

## Main definitions

* `IsFirst` — the line that is met first when a text is looked for among lines.
* `Spans` — the pairs of line numbers that blocks reach from and to.
* `Grammar.between` — what a block between two lines holds.
-/

namespace InterfaceSchema

/-- The line with the number `s` is the first one from number `i` on that has the given text. -/
structure IsFirst (lines : List String) (text : String) (i s : Nat) : Prop where
  le : i ≤ s
  here : lines[s]? = some text
  before : ∀ k, i ≤ k → k < s → lines[k]? ≠ some text

/-- The numbers of the start and the end markers of all blocks from line `i` on, in order, and the
number of the start marker that no end marker follows, if there is one. -/
inductive Spans (g : Grammar) (lines : List String) :
    Nat → List (Nat × Nat) → Option Nat → Prop where
  /-- There is no further start marker. -/
  | outside {i : Nat} (ends : ∀ k, i ≤ k → lines[k]? ≠ some g.startMarker) :
    Spans g lines i [] none
  /-- There is a start marker, and no end marker behind it. -/
  | unterminated {i s : Nat} (first : IsFirst lines g.startMarker i s)
    (ends : ∀ k, s + 1 ≤ k → lines[k]? ≠ some g.endMarker) : Spans g lines i [] (some s)
  /-- There is a start marker, and an end marker behind it. -/
  | block {i s e : Nat} {pairs : List (Nat × Nat)} {last : Option Nat}
    (first : IsFirst lines g.startMarker i s) (second : IsFirst lines g.endMarker (s + 1) e)
    (later : Spans g lines (e + 1) pairs last) : Spans g lines i ((s, e) :: pairs) last

/-- Lines inside a block without the start markers among them. -/
def Grammar.inside (g : Grammar) (lines : List String) : List String :=
  lines.filter (· ≠ g.startMarker)

/-- What a block holds that reaches from line `s` to line `e`. -/
def Grammar.between (g : Grammar) (lines : List String) (s e : Nat) : List String :=
  g.inside ((lines.take e).drop (s + 1))

/-! ## Lines up to a marker -/

namespace IsFirst

variable {lines : List String} {text : String} {i s : Nat}

theorem lt_length (h : IsFirst lines text i s) : s < lines.length :=
  (List.getElem?_eq_some_iff.1 h.here).1

/-- The lines from `i` on are those before the line that is looked for, this line, and the rest. -/
theorem drop_eq (h : IsFirst lines text i s) :
    lines.drop i = (lines.take s).drop i ++ text :: lines.drop (s + 1) := by
  obtain ⟨hlt, hline⟩ := List.getElem?_eq_some_iff.1 h.here
  have hrest : (lines.drop i).drop (s - i) = text :: lines.drop (s + 1) := by
    rw [List.drop_drop, Nat.add_sub_cancel' h.le, List.drop_eq_getElem_cons hlt, hline]
  rw [List.drop_take, ← hrest, List.take_append_drop]

theorem not_mem (h : IsFirst lines text i s) : text ∉ (lines.take s).drop i := by
  intro hmem
  obtain ⟨k, hk⟩ := List.mem_iff_getElem?.1 hmem
  rw [List.getElem?_drop, List.getElem?_take] at hk
  split_ifs at hk with hlt
  exact h.before (i + k) (by omega) hlt hk

end IsFirst

/-- A text is met among the lines from a number on, or it is not there. -/
theorem exists_isFirst_or (lines : List String) (text : String) (i : Nat) :
    (∃ s, IsFirst lines text i s) ∨ ∀ k, i ≤ k → lines[k]? ≠ some text := by
  by_cases h : ∃ s, i ≤ s ∧ lines[s]? = some text
  · obtain ⟨hle, hhere⟩ := Nat.find_spec h
    refine .inl ⟨Nat.find h, hle, hhere, fun k hk hlt hline => ?_⟩
    exact Nat.find_min h hlt ⟨hk, hline⟩
  · exact .inr fun k hk hline => h ⟨k, hk, hline⟩

theorem not_mem_drop_iff {lines : List String} {text : String} {i : Nat} :
    text ∉ lines.drop i ↔ ∀ k, i ≤ k → lines[k]? ≠ some text := by
  rw [List.mem_iff_getElem?, not_exists]
  constructor
  · intro h k hk
    have hline := h (k - i)
    rwa [List.getElem?_drop, Nat.add_sub_cancel' hk] at hline
  · intro h k
    rw [List.getElem?_drop]
    exact h (i + k) (by omega)

instance decidableAbsentFrom (lines : List String) (text : String) (i : Nat) :
    Decidable (∀ k, i ≤ k → lines[k]? ≠ some text) :=
  decidable_of_iff _ not_mem_drop_iff

instance IsFirst.decidable (lines : List String) (text : String) (i s : Nat) :
    Decidable (IsFirst lines text i s) :=
  decidable_of_iff (i ≤ s ∧ lines[s]? = some text ∧ ∀ k < s, i ≤ k → lines[k]? ≠ some text)
    ⟨fun ⟨le, here, before⟩ => ⟨le, here, fun k hk hlt => before k hlt hk⟩,
      fun h => ⟨h.le, h.here, fun k hlt hk => h.before k hk hlt⟩⟩

/-! ## Reading -/

namespace Extraction

variable {g : Grammar} {closed : List Block} {lines : List String}

/-- Up to a start marker nothing is captured. -/
theorem foldl_line_outside (h : g.startMarker ∉ lines) :
    lines.foldl (line g) ⟨closed, none⟩ = ⟨closed, none⟩ := by
  induction lines with
  | nil => rfl
  | cons l rest ih =>
    rw [List.mem_cons, not_or] at h
    rw [List.foldl_cons, line_outside closed (Ne.symm h.1), ih h.2]

/-- Up to an end marker everything is captured but start markers. -/
theorem foldl_line_capturing (h : g.endMarker ∉ lines) (captured : List String) :
    lines.foldl (line g) ⟨closed, some captured⟩ =
      ⟨closed, some ((g.inside lines).reverse ++ captured)⟩ := by
  induction lines generalizing captured with
  | nil => rfl
  | cons l rest ih =>
    rw [List.mem_cons, not_or] at h
    rw [List.foldl_cons, line, if_neg (Ne.symm h.1)]
    split_ifs with hstart
    · rw [Option.getD_some, ih h.2]
      simp [Grammar.inside, hstart]
    · rw [Option.map_some, ih h.2]
      simp [Grammar.inside, hstart]

/-- Behind a start marker a block is open. -/
theorem foldl_line_opened (h : g.endMarker ∉ lines) :
    (g.startMarker :: lines).foldl (line g) ⟨closed, none⟩ =
      ⟨closed, some (g.inside lines).reverse⟩ := by
  have hopen : line g ⟨closed, none⟩ g.startMarker = ⟨closed, some []⟩ := by
    rw [line, if_pos rfl, Option.getD_none]
  rw [List.foldl_cons, hopen, foldl_line_capturing h, List.append_nil]

end Extraction

variable {g : Grammar} {lines : List String}

/-- Reading from line `i` on closes the blocks that the markers span from there, and leaves open
what the last start marker opens. -/
theorem Spans.foldl_line (hg : g.startMarker ≠ g.endMarker) {i : Nat} {pairs : List (Nat × Nat)}
    {last : Option Nat} (h : Spans g lines i pairs last) (closed : List Block) :
    (lines.drop i).foldl (Extraction.line g) ⟨closed, none⟩ =
      ⟨(pairs.map fun p => ⟨g.between lines p.1 p.2⟩).reverse ++ closed,
        last.map fun s => (g.inside (lines.drop (s + 1))).reverse⟩ := by
  induction h generalizing closed with
  | outside ends => exact Extraction.foldl_line_outside (not_mem_drop_iff.2 ends)
  | unterminated first ends =>
    rw [first.drop_eq, List.foldl_append, Extraction.foldl_line_outside first.not_mem,
      Extraction.foldl_line_opened (not_mem_drop_iff.2 ends)]
    rfl
  | @block i s e pairs last first second later ih =>
    have hclose (captured : List String) :
        Extraction.line g ⟨closed, some captured⟩ g.endMarker =
          ⟨⟨captured.reverse⟩ :: closed, none⟩ := by
      rw [Extraction.line, if_neg hg.symm, if_pos rfl]
    rw [first.drop_eq, List.foldl_append, Extraction.foldl_line_outside first.not_mem,
      second.drop_eq, ← List.cons_append, List.foldl_append,
      Extraction.foldl_line_opened second.not_mem, List.foldl_cons, hclose, ih]
    simp [Grammar.between]

/-- From every line on the markers span some blocks. The induction is on the number of lines that
are left. -/
theorem exists_spans (g : Grammar) (lines : List String) (i : Nat) :
    ∃ pairs last, Spans g lines i pairs last := by
  induction hn : lines.length - i using Nat.strong_induction_on generalizing i with
  | h n ih =>
    rcases exists_isFirst_or lines g.startMarker i with ⟨s, first⟩ | ends
    · rcases exists_isFirst_or lines g.endMarker (s + 1) with ⟨e, second⟩ | ends
      · have hlt := second.lt_length
        have hs := first.le
        have he := second.le
        obtain ⟨pairs, last, later⟩ := ih (lines.length - (e + 1)) (by omega) (e + 1) rfl
        exact ⟨_, _, .block first second later⟩
      · exact ⟨_, _, .unterminated first ends⟩
    · exact ⟨_, _, .outside ends⟩

/-- What stands in a block is no marker. -/
theorem Spans.ne_of_mem {i : Nat} {pairs : List (Nat × Nat)} {last : Option Nat}
    (h : Spans g lines i pairs last) {p : Nat × Nat} (hp : p ∈ pairs) {line : String}
    (hline : line ∈ g.between lines p.1 p.2) : line ≠ g.startMarker ∧ line ≠ g.endMarker := by
  induction h with
  | outside => cases hp
  | unterminated => cases hp
  | block first second later ih =>
    rcases List.mem_cons.1 hp with rfl | hp
    · obtain ⟨hmem, hstart⟩ := List.mem_filter.1 hline
      exact ⟨by simpa using hstart, fun hend => second.not_mem (hend ▸ hmem)⟩
    · exact ih hp

/-! ## Plain lines -/

namespace IsPlain

variable {line : String} (h : IsPlain line)
include h

theorem unbroken : ∀ c ∈ ['\t', '\r', '\n'], c ∉ line.toList := by
  intro c hc hmem
  have hsingle := h.single
  rw [← h.plain] at hmem
  rcases mem_plainLine hmem with rfl | ⟨htab, hreturn, hline⟩
  · simp at hc
  · simp only [List.mem_cons, htab, hreturn, false_or, List.not_mem_nil, or_false] at hc
    exact hsingle (hc ▸ hline)

theorem trimmed : trim line.toList = line.toList := by
  have hplain : InterfaceSchema.plain line.toList = line.toList :=
    plain_eq_self (h.unbroken _ (by decide)) (h.unbroken _ (by decide))
  have hline := congrArg String.toList h.plain
  rwa [plainLine, String.toList_ofList, hplain] at hline

theorem ends : ∀ c, c ∈ line.toList.head? ∨ c ∈ line.toList.getLast? → isBlank c = false := by
  rintro c (hhead | hlast)
  · exact head?_trim (by rwa [h.trimmed])
  · exact getLast?_trim (by rwa [h.trimmed])

end IsPlain

/-- Only a grammar whose markers can be found, and told apart, has blocks. -/
theorem separates_of_mem_blocks {text : String} {b : Block} (h : b ∈ (extract g text).blocks) :
    g.Separates := by
  obtain ⟨⟨hdistinct, hstart, hend⟩, -⟩ := isPlain_of_mem_blocks h
  refine ⟨hdistinct, ?_, ?_⟩
  · simpa using ⟨by simpa using hstart.unbroken, by simpa using hend.unbroken⟩
  · simpa using ⟨hstart.trimmed, hend.trimmed⟩

/-! ## Whole texts -/

/-- The blocks of a text are those that its markers span, in order, each with the lines between its
markers but for further start markers; a start marker that no end marker follows is reported with
the number of such lines behind it. A grammar whose markers are alike, or cannot be found as lines,
has no blocks. The lines of blocks are trimmed lines and no markers. -/
theorem extract_spans (g : Grammar) (text : String) :
    let lines := plainLines text
    let e := extract g text
    (g.startMarker ≠ g.endMarker →
      (∃ pairs last, Spans g lines 0 pairs last) ∧
      ∀ pairs last, Spans g lines 0 pairs last →
        e.blocks = (pairs.map fun p => ⟨g.between lines p.1 p.2⟩) ∧
        e.events = (last.map fun s =>
          Event.unterminatedBlock (g.inside (lines.drop (s + 1))).length).toList) ∧
    (¬g.Separates → e.blocks = []) ∧
    ∀ b ∈ e.blocks, ∀ line ∈ b.lines, line ≠ g.startMarker ∧ line ≠ g.endMarker ∧
      (∀ c ∈ ['\t', '\r', '\n'], c ∉ line.toList) ∧
      ∀ c, c ∈ line.toList.head? ∨ c ∈ line.toList.getLast? → isBlank c = false := by
  intro lines e
  have hspans (hg : g.startMarker ≠ g.endMarker) (pairs : List (Nat × Nat)) (last : Option Nat)
      (h : Spans g lines 0 pairs last) :
      e.blocks = (pairs.map fun p => ⟨g.between lines p.1 p.2⟩) ∧
      e.events = (last.map fun s =>
        Event.unterminatedBlock (g.inside (lines.drop (s + 1))).length).toList := by
    have hread : e = ⟨(pairs.map fun p => ⟨g.between lines p.1 p.2⟩).reverse ++ [],
        last.map fun s => (g.inside (lines.drop (s + 1))).reverse⟩ := h.foldl_line hg []
    rw [hread]
    refine ⟨by simp [Extraction.blocks], ?_⟩
    cases last <;> simp [Extraction.events, Extraction.unterminated?]
  refine ⟨fun hg => ⟨exists_spans g lines 0, hspans hg⟩, fun hg => ?_, fun b hb line hline => ?_⟩
  · exact List.eq_nil_iff_forall_not_mem.2 fun b hb => hg (separates_of_mem_blocks hb)
  · have hplain := (isPlain_of_mem_blocks hb).2 line hline
    have hdistinct := (separates_of_mem_blocks hb).distinct
    obtain ⟨pairs, last, h⟩ := exists_spans g lines 0
    rw [(hspans hdistinct pairs last h).1] at hb
    obtain ⟨p, hp, rfl⟩ := List.mem_map.1 hb
    obtain ⟨hstart, hend⟩ := h.ne_of_mem hp hline
    exact ⟨hstart, hend, hplain.unbroken, hplain.ends⟩

/-- A stray end marker, a start marker inside a block, a block that holds nothing, and a block that
is not closed. No block is found with the end marker of another grammar that equals its start
marker. -/
theorem extract_spans_unterminated :
    let text := "/* END SCHEMA */\n /* SCHEMA */\na\r\n/* SCHEMA */\n\tb\n/* END SCHEMA */\n" ++
      "/* SCHEMA */\n/* END SCHEMA */\n/* SCHEMA */\nc\n/* SCHEMA */"
    Spans {} (plainLines text) 0 [(1, 5), (6, 7)] (some 8) ∧
      (extract {} text).blocks = [⟨["a", "b"]⟩, ⟨[]⟩] ∧
      (extract {} text).events = [.unterminatedBlock 1] ∧
      (extract { endMarker := "/* SCHEMA */" } text).blocks = [] := by
  intro text
  have hlines : plainLines text = ["/* END SCHEMA */", "/* SCHEMA */", "a", "/* SCHEMA */", "b",
      "/* END SCHEMA */", "/* SCHEMA */", "/* END SCHEMA */", "/* SCHEMA */", "c",
      "/* SCHEMA */"] := by decide +kernel
  have hspans : Spans {} (plainLines text) 0 [(1, 5), (6, 7)] (some 8) := by
    rw [hlines]
    exact .block (by decide) (by decide) <| .block (by decide) (by decide) <|
      .unterminated (by decide) (by decide)
  obtain ⟨hblocks, hevents⟩ := ((extract_spans {} text).1 (by decide)).2 _ _ hspans
  refine ⟨hspans, ?_, ?_, (extract_spans _ text).2.1 fun h => h.distinct rfl⟩
  · rw [hblocks, hlines]
    decide
  · rw [hevents, hlines]
    decide

end InterfaceSchema
