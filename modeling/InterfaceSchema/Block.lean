import InterfaceSchema.Grammar
import InterfaceSchema.Text.Blank
import InterfaceSchema.Text.Cut

/-!
# Marked blocks

A block is what stands between a start marker and the next end marker. Lines are compared with the
markers, and kept, in a plain form: tabs as spaces, without carriage returns, trimmed.

## Main definitions

* `plainLines` — the lines of a text in their plain form.
* `Extraction.line` — the effect of one line.
* `extract` — the closed blocks of a text, and the length of one left open.
-/

namespace InterfaceSchema

/-- The lines between two markers, in order. -/
structure Block where
  lines : List String
  deriving DecidableEq, Repr, Inhabited

/-- Whether nothing stands between the markers. -/
def Block.isEmpty (b : Block) : Bool :=
  b.lines.isEmpty

/-- A text with spaces for its tabs and without carriage returns. -/
def plain (cs : List Char) : List Char :=
  cs.filterMap fun c => if c = '\t' then some ' ' else if c = '\r' then none else some c

/-- The lines of a text in their plain form. -/
def plainLines (text : String) : List String :=
  (splitAt '\n' (plain text.toList)).map fun line => String.ofList (trim line)

/-- The state between two lines: the blocks closed so far and, inside a block, the lines captured
in it. Both are kept newest first. -/
structure Extraction where
  closed : List Block
  captured : Option (List String)
  deriving DecidableEq, Repr

namespace Extraction

/-- Nothing read yet. -/
def start : Extraction := ⟨[], none⟩

/-- Read one line. A start marker inside a block and an end marker outside of one change nothing;
any other line belongs to the block around it. -/
def line (g : Grammar) (e : Extraction) (l : String) : Extraction :=
  if l = g.startMarker then { e with captured := some (e.captured.getD []) }
  else if l = g.endMarker then
    match e.captured with
    | some lines => ⟨⟨lines.reverse⟩ :: e.closed, none⟩
    | none => e
  else { e with captured := e.captured.map (l :: ·) }

/-- The closed blocks in order. -/
def blocks (e : Extraction) : List Block :=
  e.closed.reverse

/-- How many lines the block still open has captured, if one is open. -/
def unterminated? (e : Extraction) : Option Nat :=
  e.captured.map List.length

end Extraction

/-- Read a text to its end. A block that is still open then is not among the closed ones. -/
def extract (g : Grammar) (text : String) : Extraction :=
  (plainLines text).foldl (Extraction.line g) .start

end InterfaceSchema
