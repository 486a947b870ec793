import InterfaceSchema.Proofs.Invariant
import InterfaceSchema.Proofs.RoundTrip

/-!
# Printing what was read

Whatever a text is like, an interface that was read from it can be written on one line, and a text
with this line between the markers is read as this interface again. The words of the interface are
pieces of tokens, in which everything may stand but a space, a tab or a line end, other blanks
included; the markers have been found as lines, so they are found again.

## Main definitions

* `InToken` — characters that may stand in a token.
* `Extraction.From` — blocks and markers that were found among lines of a kind.
* `Interface.line` — an interface on one line.
-/

namespace InterfaceSchema

/-- A character that may stand in a token. -/
def InToken (c : Char) : Prop :=
  c ∉ [' ', '\t', '\r', '\n']

variable {g : Grammar}

theorem IsPlain.written_of_mem_lineTokens {line token : String} (h : IsPlain line)
    (ht : token ∈ lineTokens line) : Written InToken token := by
  intro c hc
  obtain ⟨hspace, hline⟩ := (of_mem_lineTokens ht).2 c hc
  have hnewline : c ≠ '\n' := fun hn => h.single (hn ▸ hline)
  rw [← h.plain] at hline
  rcases mem_plainLine hline with rfl | ⟨htab, hreturn, -⟩
  · exact absurd rfl hspace
  · simp [InToken, hspace, htab, hreturn, hnewline]

/-! ## Blocks -/

/-- What is known of blocks that were found among lines of a kind, and of a block still open: they
hold such lines, and the markers that were met are such lines. Markers that are alike close no
block. -/
structure Extraction.From (g : Grammar) (L : String → Prop) (e : Extraction) : Prop where
  captured : ∀ lines ∈ e.captured, L g.startMarker ∧ ∀ line ∈ lines, L line
  closed : ∀ b ∈ e.closed, (g.startMarker ≠ g.endMarker ∧ L g.startMarker ∧ L g.endMarker) ∧
    ∀ line ∈ b.lines, L line

namespace Extraction

variable {L : String → Prop} {e : Extraction}

theorem From.line (h : e.From g L) {l : String} (hl : L l) : (e.line g l).From g L := by
  obtain ⟨closed, captured⟩ := e
  obtain ⟨hcaptured, hclosed⟩ := h
  unfold Extraction.line
  split_ifs with hstart hend
  · refine ⟨?_, hclosed⟩
    cases captured with
    | none => simpa using hstart ▸ hl
    | some lines => simpa using hcaptured
  · cases captured with
    | none => exact ⟨hcaptured, hclosed⟩
    | some lines =>
      obtain ⟨hmarker, hlines⟩ := hcaptured lines rfl
      have hdistinct : g.startMarker ≠ g.endMarker := fun h => hstart (hend.trans h.symm)
      refine ⟨by simp, List.forall_mem_cons.2 ⟨⟨⟨hdistinct, hmarker, hend ▸ hl⟩, ?_⟩, hclosed⟩⟩
      simpa using hlines
  · refine ⟨?_, hclosed⟩
    cases captured with
    | none => simp
    | some lines => simpa [hl] using hcaptured

theorem From.foldl_line (h : e.From g L) {lines : List String} (hl : ∀ line ∈ lines, L line) :
    (lines.foldl (Extraction.line g) e).From g L := by
  induction lines generalizing e with
  | nil => exact h
  | cons line rest ih =>
    obtain ⟨hline, hrest⟩ := List.forall_mem_cons.1 hl
    exact ih (h.line hline) hrest

end Extraction

/-- A block that is written between its markers is found again. -/
theorem blocks_extract_marked {b : Block} (hg : g.startMarker ≠ g.endMarker)
    (hplain : ∀ line ∈ b.marked g, IsPlain line)
    (hinside : ∀ line ∈ b.lines, line ≠ g.startMarker ∧ line ≠ g.endMarker) :
    (extract g ("\n".intercalate (b.marked g))).blocks = [b] := by
  have hlines : plainLines ("\n".intercalate (b.marked g)) = b.marked g := by
    rw [plainLines_intercalate (by simp [Block.marked]) fun line h => (hplain line h).single]
    exact (List.map_congr_left fun line h => (hplain line h).plain).trans (List.map_id _)
  rw [extract, hlines, Extraction.start, Extraction.foldl_line_marked [] hg hinside]
  rfl

/-- The blocks of a text hold plain lines, and if there are any, the markers are plain and can be
told apart. -/
theorem isPlain_of_mem_blocks {text : String} {b : Block} (h : b ∈ (extract g text).blocks) :
    (g.startMarker ≠ g.endMarker ∧ IsPlain g.startMarker ∧ IsPlain g.endMarker) ∧
      ∀ line ∈ b.lines, IsPlain line := by
  have hfrom : (extract g text).From g IsPlain :=
    Extraction.From.foldl_line ⟨by simp [Extraction.start], by simp [Extraction.start]⟩
      fun _ => isPlain_of_mem_plainLines
  exact hfrom.closed b (List.mem_reverse.1 h)

/-- What is read from a block of plain lines is well formed and written in characters of tokens. -/
theorem Block.formed_interface {b : Block} (h : ∀ line ∈ b.lines, IsPlain line) :
    Written InToken (b.interface g).1.name ∧
      ∀ level ∈ (b.interface g).1.levels, level.Formed g InToken := by
  have htokens : ∀ token ∈ b.tokens, Written InToken token := by
    intro token ht
    obtain ⟨line, hline, ht⟩ := List.mem_flatMap.1 ht
    exact (h line hline).written_of_mem_lineTokens ht
  have hname : Written InToken b.declaration.name := by
    change Written InToken (b.tokens.tail.headD "")
    cases htail : b.tokens.tail with
    | nil => simp [Written]
    | cons name rest => exact htokens name (List.mem_of_mem_tail (by simp [htail]))
  have hbody : ∀ token ∈ b.declaration.body, Written InToken token := fun token ht =>
    htokens token (List.mem_of_mem_drop (List.dropLast_subset _ ht))
  have hformed := (InterfaceBuilder.formed_start g hname).after hbody
  exact ⟨hformed.root, hformed.levels _ List.mem_cons_self⟩

/-! ## Lines -/

/-- An interface on one line. -/
def Interface.line (g : Grammar) (i : Interface) : String :=
  " ".intercalate (i.declarationLines g fun _ => "\x7d;").flatten

section

variable {i : Interface} (hname : IsWord InToken i.name)
  (hi : ∀ level ∈ i.levels, level.WrittenIn g InToken)
include hname hi

theorem Interface.isWord_of_mem_line :
    ∀ w ∈ (i.declarationLines g fun _ => "\x7d;").flatten, IsWord InToken w := by
  intro w hw
  obtain ⟨words, hwords, hw⟩ := List.mem_flatten.1 hw
  refine Interface.isWord_of_mem_declarationLines ⟨?_, ?_⟩ (fun _ => .inr rfl) hname hi
    words hwords w hw
  · unfold InToken; decide
  · unfold Written InToken; decide

theorem Interface.lineTokens_line :
    lineTokens (i.line g) = (i.declarationLines g fun _ => "\x7d;").flatten := by
  have hwords := Interface.isWord_of_mem_line hname hi
  refine lineTokens_words (fun w hw => (hwords w hw).1) fun w hw hspace => ?_
  exact (hwords w hw).2 ' ' hspace (by simp)

/-- The line begins with the keyword and ends with a brace, so nothing is lost when it is
trimmed. -/
theorem Interface.isPlain_line : IsPlain (i.line g) := by
  have hwords := Interface.isWord_of_mem_line hname hi
  have hchars : ∀ c ∈ (i.line g).toList, c = ' ' ∨ InToken c := by
    intro c hc
    exact (mem_intercalate_words hc).imp_right fun ⟨w, hw, h⟩ => (hwords w hw).2 c h
  have hfree : ∀ c ∈ ['\n', '\t', '\r'], c ∉ (i.line g).toList := by
    intro c hc hmem
    rcases hchars c hmem with rfl | h
    · simp at hc
    · simp_all [InToken]
  refine ⟨hfree _ (by simp), plainLine_eq_self (hfree _ (by simp)) (hfree _ (by simp)) ?_ ?_⟩
  · intro c hc
    rw [Interface.line, Interface.declarationLines, List.cons_append, List.flatten_cons,
      List.cons_append, head?_intercalate_words (by decide)] at hc
    obtain rfl : c = 'i' := by simpa using hc.symm
    decide
  · intro c hc
    rw [Interface.line, Interface.declarationLines, List.flatten_append, List.flatten_singleton,
      getLast?_intercalate_words (by decide)] at hc
    obtain rfl : c = '\x7d' := by simpa using hc.symm
    decide

end

/-- An interface with a name that was read from any text is read again from its line between the
markers. -/
theorem parseSource_line {text : String} {i : Interface} (hi : i ∈ (parseSource g text).1)
    (hname : i.name ≠ "") (hstart : i.line g ≠ g.startMarker) (hend : i.line g ≠ g.endMarker) :
    (parseSource g ("\n".intercalate [g.startMarker, i.line g, g.endMarker])).1 = [i] := by
  obtain ⟨b, hb, rfl⟩ : ∃ b ∈ (extract g text).blocks, (b.interface g).1 = i := by
    simpa [parseSource] using hi
  obtain ⟨⟨hdistinct, hstartPlain, hendPlain⟩, hlines⟩ := isPlain_of_mem_blocks hb
  obtain ⟨hwritten, hformed⟩ := Block.formed_interface hlines
  have hlevels : ∀ level ∈ (b.interface g).1.levels, level.WrittenIn g InToken :=
    fun level hl => (hformed level hl).written
  let printed : Block := ⟨[(b.interface g).1.line g]⟩
  have hplain : ∀ line ∈ printed.marked g, IsPlain line := by
    have hline := Interface.isPlain_line ⟨hname, hwritten⟩ hlevels
    simp [printed, Block.marked, hstartPlain, hline, hendPlain]
  have hblocks := blocks_extract_marked hdistinct hplain (by simp [printed, hstart, hend])
  have htokens : printed.tokens =
      ((b.interface g).1.declarationLines g fun _ => "\x7d;").flatten := by
    simpa [Block.tokens, printed] using Interface.lineTokens_line ⟨hname, hwritten⟩ hlevels
  have hread : (printed.interface g).1 = (b.interface g).1 :=
    Block.interface_of_tokens (fun _ => .inr rfl) (fun level hl => (hformed level hl).readable)
      htokens
  have hmarked : printed.marked g = [g.startMarker, (b.interface g).1.line g, g.endMarker] := rfl
  rw [hmarked] at hblocks
  simp only [parseSource, hblocks, List.map_cons, List.map_nil, hread]

/-- A declaration with other blanks than spaces in its tokens, a stray token, an empty key type and
a member that is replaced. -/
theorem parseSource_line_blanks :
    let i : Interface := ⟨"A\u00a0", ⟨[("a", .named "c"), ("d", .object (.ofName "d"))]⟩,
      [⟨"", .named "\u3000"⟩]⟩
    i ∈ (parseSource {} ("/* SCHEMA */\r\ninterface A\u00a0 oops\n[key: x ]: \u3000; a: \x7b " ++
        "b\u2003: t; \x7d; a: c; d: \x7b \x7d end\n/* END SCHEMA */")).1 ∧
      (parseSource {} ("\n".intercalate ["/* SCHEMA */", i.line {}, "/* END SCHEMA */"])).1 =
        [i] := by
  intro i
  suffices hi : i ∈ (parseSource {} _).1 from
    ⟨hi, parseSource_line hi (by decide) (by decide +kernel) (by decide +kernel)⟩
  decide +kernel

end InterfaceSchema
