import InterfaceSchema.Interface.Builder

/-!
# Source texts

All declarations marked in a text, read as interface trees. Blocks are found first and read then.
-/

namespace InterfaceSchema

/-- The report on a block left open at the end of a text. -/
def Extraction.events (e : Extraction) : List Event :=
  (e.unterminated?.map Event.unterminatedBlock).toList

/-- The interface tree in a block. -/
def Block.interface (g : Grammar) (b : Block) : Interface × List Event :=
  b.declaration.interface g

/-- The interface trees of all closed blocks of a text, in order. -/
def parseSource (g : Grammar) (text : String) : List Interface × List Event :=
  let e := extract g text
  let results := e.blocks.map (Block.interface g)
  (results.map Prod.fst, e.events ++ results.flatMap Prod.snd)

end InterfaceSchema
