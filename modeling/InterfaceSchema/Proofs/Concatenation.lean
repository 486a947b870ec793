import InterfaceSchema.Proofs.Cutting
import InterfaceSchema.Source

/-!
# Texts one after the other

A text is read line by line, and what has been read is never taken back: the blocks that a text
closes stay whatever text follows on the next line. If no block is open between two texts, the
second is read as if it stood alone.

## Main definitions

* `Extraction.behind` — a state of reading with earlier blocks in front of its own.
-/

namespace InterfaceSchema

namespace Extraction

variable {g : Grammar}

/-- The state of reading in which other blocks have been closed before. -/
def behind (earlier : List Block) (e : Extraction) : Extraction :=
  { e with closed := e.closed ++ earlier }

@[simp] theorem captured_behind (earlier : List Block) (e : Extraction) :
    (e.behind earlier).captured = e.captured := rfl

@[simp] theorem blocks_behind (earlier : List Block) (e : Extraction) :
    (e.behind earlier).blocks = earlier.reverse ++ e.blocks := by
  simp [blocks, behind]

/-- What a line does depends on what is captured and not on the blocks closed before. -/
theorem line_behind (earlier : List Block) (e : Extraction) (l : String) :
    (e.behind earlier).line g l = (e.line g l).behind earlier := by
  obtain ⟨closed, captured⟩ := e
  unfold line behind
  split_ifs
  · rfl
  · cases captured <;> rfl
  · rfl

theorem foldl_line_behind (earlier : List Block) (e : Extraction) (lines : List String) :
    lines.foldl (line g) (e.behind earlier) = (lines.foldl (line g) e).behind earlier := by
  induction lines generalizing e with
  | nil => rfl
  | cons l rest ih => rw [List.foldl_cons, List.foldl_cons, line_behind, ih]

end Extraction

/-- A second text is read from where the first has led, and adds to its blocks. -/
theorem extract_append (g : Grammar) (s t : String) :
    extract g (s ++ "\n" ++ t) =
      ((plainLines t).foldl (Extraction.line g) ⟨[], (extract g s).captured⟩).behind
        (extract g s).closed := by
  have hread : extract g (s ++ "\n" ++ t) =
      (plainLines t).foldl (Extraction.line g) (extract g s) := by
    rw [extract, plainLines_append, List.foldl_append]
    rfl
  rw [hread, ← Extraction.foldl_line_behind]
  rfl

/-- No text takes back a block of the text before it. A text that ends outside of blocks does not
mind what follows at all: the blocks of the next text, the interfaces in them and the report on a
block left open are those of this text alone. -/
theorem parseSource_append (g : Grammar) (s t : String) :
    (extract g s).blocks <+: (extract g (s ++ "\n" ++ t)).blocks ∧
      ((extract g s).events = [] →
        (extract g (s ++ "\n" ++ t)).blocks = (extract g s).blocks ++ (extract g t).blocks ∧
        (parseSource g (s ++ "\n" ++ t)).1 = (parseSource g s).1 ++ (parseSource g t).1 ∧
        (extract g (s ++ "\n" ++ t)).events = (extract g t).events) := by
  have happend := extract_append g s t
  constructor
  · rw [happend, Extraction.blocks_behind]
    exact List.prefix_append _ _
  · intro hclosed
    have hcaptured : (extract g s).captured = none := by
      cases hc : (extract g s).captured with
      | none => rfl
      | some lines => simp [Extraction.events, Extraction.unterminated?, hc] at hclosed
    -- nothing is captured, so the second text is read from the start
    rw [hcaptured] at happend
    have halone : extract g (s ++ "\n" ++ t) = (extract g t).behind (extract g s).closed := happend
    have hblocks : (extract g (s ++ "\n" ++ t)).blocks =
        (extract g s).blocks ++ (extract g t).blocks := by
      rw [halone, Extraction.blocks_behind]
      rfl
    refine ⟨hblocks, ?_, ?_⟩
    · simp only [parseSource, hblocks, List.map_append]
    · rw [halone]
      rfl

/-- A text with a stray end marker behind its block, and a text that ends inside a block: the block
is not closed, and has captured two lines. -/
theorem parseSource_append_unterminated :
    let s := "/* SCHEMA */\ninterface A \x7b\n\x7d\n/* END SCHEMA */\n/* END SCHEMA */"
    let t := "/* SCHEMA */\ninterface B \x7b \x7d\n/* END SCHEMA */\n/* SCHEMA */\nx\ny"
    (extract {} s).events = [] ∧
      (parseSource {} (s ++ "\n" ++ t)).1 = [.ofName "A", .ofName "B"] ∧
      (extract {} (s ++ "\n" ++ t)).events = [.unterminatedBlock 2] := by
  intro s t
  have hclosed : (extract {} s).events = [] := by decide +kernel
  obtain ⟨-, hinterfaces, hevents⟩ := (parseSource_append {} s t).2 hclosed
  refine ⟨hclosed, ?_, ?_⟩
  · rw [hinterfaces]
    decide +kernel
  · rw [hevents]
    decide +kernel

end InterfaceSchema
