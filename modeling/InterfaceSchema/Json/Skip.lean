import InterfaceSchema.Json.Parse

/-!
# Passing over JSON values

A value that nobody asked for is only followed to its end. Nesting is bounded by nothing, numbers
may have any size, and strings need not be UTF-8.
-/

namespace InterfaceSchema.Json

open Reader

/-- The kinds of containers. -/
inductive Container where
  | array
  | object
  deriving DecidableEq, Repr

/-- The closing bracket. -/
def Container.closing : Container → Char
  | .array => ']'
  | .object => '}'

/-- The fault of a text that ends inside the container. -/
def Container.unfinished : Container → Fault
  | .array => .endInList
  | .object => .endInObject

/-- The fault where neither a comma nor the closing bracket follows a value. -/
def Container.separatorMissing : Container → Fault
  | .array => .expectedListComma
  | .object => .expectedObjectComma

/-! ## Scalars -/

/-- Pass over what follows a backslash. -/
def skipEscape : Reader Unit := do
  match ← next? with
  | none => failAfter .endInString
  | some 'u' => let _ ← hexEscape
  | some c => if (shortEscape? c).isSome then return else failAfter .invalidEscape

/-- Pass over a string behind its opening quote. Every step takes a byte at least, so the text that
the string is read from has one for each. -/
def skipString : List UInt8 → Reader Unit
  | [] => failAfter .endInString
  | _ :: text => do
    match ← get with
    | [] => failAfter .endInString
    | b :: _ =>
      if b < 0x20 then failAfter .controlCharacter
      else
        skip
        if b = 0x22 then return
        else
          if b = 0x5C then skipEscape
          skipString text

/-- Pass over an exponent from its letter on. -/
def skipExponent : Reader Unit := do
  skip
  let _ ← exponentSign
  if (← digits).isEmpty then
    skip
    failAfter .invalidNumber

/-- Pass over an exponent if one follows. -/
def skipOptionalExponent : Reader Unit := do
  match ← peek? with
  | some 'e' | some 'E' => skipExponent
  | _ => return

/-- Pass over a number behind its minus sign, if it has one. -/
def skipNumber : Reader Unit := do
  match ← digits with
  | [] =>
    skip
    failAfter .invalidNumber
  | 0x30 :: second :: rest =>
    set (second :: rest ++ (← get))
    failAt .invalidNumber
  | _ =>
    match ← peek? with
    | some '.' =>
      skip
      if (← digits).isEmpty then failAt .invalidNumber
      skipOptionalExponent
    | _ => skipOptionalExponent

/-! ## Values -/

/-- Where the end of a container is looked for. -/
inductive Place where
  /-- Behind its opening bracket. -/
  | opened
  /-- Behind a value in it. -/
  | closed
  deriving DecidableEq, Repr

/-- Pass over the key of a member and its colon. -/
def skipKey : Reader Unit := do
  match ← peekToken? with
  | none => failAt .endInObject
  | some '"' =>
    skip
    skipString (← get)
    colon
  | some _ => failAt .keyNotString

/-- Pass over what stands before the next value in a container. -/
def skipToValue : Container → Reader Unit
  | .array => return
  | .object => skipKey

/-- Pass over a scalar, or over the opening bracket of a container, inside the given containers: the
containers that are open then, innermost first. -/
def beginValue (outer : List Container) : Reader (List Container × Place) := do
  match ← peekToken? with
  | none => failAt .endInValue
  | some 'n' => skip; word ['u', 'l', 'l']; return (outer, .closed)
  | some 't' => skip; word ['r', 'u', 'e']; return (outer, .closed)
  | some 'f' => skip; word ['a', 'l', 's', 'e']; return (outer, .closed)
  | some '"' => skip; skipString (← get); return (outer, .closed)
  | some '-' => skip; skipNumber; return (outer, .closed)
  | some '[' => skip; return (.array :: outer, .opened)
  | some '{' => skip; return (.object :: outer, .opened)
  | some c =>
    if c.isDigit then
      skipNumber
      return (outer, .closed)
    else failAt .expectedValue

/-- Pass over the closing bracket of the innermost container, or over what comes before its next
value and the beginning of that. -/
def goOn (inner : Container) (outer : List Container) (place : Place) :
    Reader (List Container × Place) := do
  match ← peekToken? with
  | none => failAt inner.unfinished
  | some c =>
    if c = inner.closing then
      skip
      return (outer, .closed)
    else
      if place = .closed then
        if c = ',' then skip else failAt inner.separatorMissing
      skipToValue inner
      beginValue (inner :: outer)

/-- Pass over everything up to the end of the outermost open container, which are given innermost
first. Every step takes a byte at least, so the text that they are read from has one for each. -/
def skipOpen : List UInt8 → List Container → Place → Reader Unit
  | _, [], _ => return
  | [], inner :: _, _ => failAt inner.unfinished
  | _ :: text, inner :: outer, place => do
    let (containers, place) ← goOn inner outer place
    skipOpen text containers place

/-- Pass over a value. -/
def skipValue : Reader Unit := do
  let text ← get
  let (containers, place) ← beginValue []
  skipOpen text containers place

end InterfaceSchema.Json
