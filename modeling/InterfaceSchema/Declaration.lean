import InterfaceSchema.Block

/-!
# Declarations

A block read as `keyword Name { body }`: its tokens are what single spaces and line ends separate.
The opening and the last brace are dropped without being looked at.
-/

namespace InterfaceSchema

/-- The parts of a declaration. -/
structure Declaration where
  keyword : String
  name : String
  body : List String
  deriving DecidableEq, Repr, Inhabited

/-- The tokens of a line: its non-empty pieces between spaces. -/
def lineTokens (line : String) : List String :=
  ((splitAt ' ' line.toList).filter (!·.isEmpty)).map String.ofList

/-- The tokens of all lines, in order. -/
def Block.tokens (b : Block) : List String :=
  b.lines.flatMap lineTokens

/-- Read tokens as a declaration. Missing parts are empty: the body needs a token before and a
token after it, besides keyword and name. -/
def Declaration.ofTokens (tokens : List String) : Declaration where
  keyword := tokens.headD ""
  name := tokens.tail.headD ""
  body := (tokens.drop 3).dropLast

/-- The declaration in a block. -/
def Block.declaration (b : Block) : Declaration :=
  .ofTokens b.tokens

end InterfaceSchema
