import InterfaceSchema.Decimal.Shortest
import InterfaceSchema.Json.Basic

/-!
# JSON text

Two ways to write a value: compactly, without any blank, and with one line per item or member,
indented by tabs. Both write strings the same way.

## Main definitions

* `Json.compact` — the text without blanks.
* `Json.indented` — the text with tabs and line ends.
-/

namespace InterfaceSchema.Json

/-! ## Scalars -/

/-- One character of a string. Quotes, backslashes and the controls below the space are escaped,
everything else stands for itself. -/
def escape (c : Char) : List Char :=
  if c = '"' then ['\\', '"']
  else if c = '\\' then ['\\', '\\']
  else if c = '\x08' then ['\\', 'b']
  else if c = '\x0c' then ['\\', 'f']
  else if c = '\n' then ['\\', 'n']
  else if c = '\r' then ['\\', 'r']
  else if c = '\t' then ['\\', 't']
  else if c.toNat < 0x20 then
    ['\\', 'u', '0', '0', Nat.digitChar (c.toNat / 16), Nat.digitChar (c.toNat % 16)]
  else [c]

/-- A string between quotes. -/
def stringText (s : String) : List Char :=
  '"' :: s.toList.flatMap escape ++ ['"']

/-- An integer in decimal digits. -/
def integerText (n : Int) : List Char :=
  (if n < 0 then ['-'] else []) ++ Nat.toDigits 10 n.natAbs

/-- The text of a number. -/
def numberText : Number → List Char
  | .integer n => integerText n
  | .float negative x => x.text negative

/-- The text of a truth value. -/
def boolText : Bool → List Char
  | true => ['t', 'r', 'u', 'e']
  | false => ['f', 'a', 'l', 's', 'e']

/-- The text of the null value. -/
def nullText : List Char := ['n', 'u', 'l', 'l']

/-! ## Compact text -/

mutual

/-- The text of a value without blanks, in front of another text. -/
def compactOnto : Json → List Char → List Char
  | .null, after => nullText ++ after
  | .bool b, after => boolText b ++ after
  | .number n, after => numberText n ++ after
  | .string s, after => stringText s ++ after
  | .array [], after => '[' :: ']' :: after
  | .array (v :: more), after => '[' :: v.compactOnto (compactItems more (']' :: after))
  | .object [], after => '{' :: '}' :: after
  | .object ((k, v) :: more), after =>
    '{' :: stringText k ++ ':' :: v.compactOnto (compactMembers more ('}' :: after))

/-- The texts of further items of an array, in front of another text. -/
def compactItems : List Json → List Char → List Char
  | [], after => after
  | v :: more, after => ',' :: v.compactOnto (compactItems more after)

/-- The texts of further members of an object, in front of another text. -/
def compactMembers : List (String × Json) → List Char → List Char
  | [], after => after
  | (k, v) :: more, after =>
    ',' :: stringText k ++ ':' :: v.compactOnto (compactMembers more after)

end

/-- The text of a value without blanks. -/
def compact (v : Json) : String :=
  String.ofList (v.compactOnto [])

/-! ## Indented text -/

/-- A line end and the tabs of the given depth. -/
def newLine (depth : Nat) : List Char :=
  '\n' :: List.replicate depth '\t'

mutual

/-- The text of a value whose first line is indented by `depth` tabs, in front of another text.
Every item and every member has a line of its own, one level deeper than the brackets; nothing
stands between brackets without any. -/
def indentedOnto (depth : Nat) : Json → List Char → List Char
  | .null, after => nullText ++ after
  | .bool b, after => boolText b ++ after
  | .number n, after => numberText n ++ after
  | .string s, after => stringText s ++ after
  | .array [], after => '[' :: ']' :: after
  | .array (v :: more), after =>
    '[' :: newLine (depth + 1) ++ v.indentedOnto (depth + 1)
      (indentedItems (depth + 1) more (newLine depth ++ ']' :: after))
  | .object [], after => '{' :: '}' :: after
  | .object ((k, v) :: more), after =>
    '{' :: newLine (depth + 1) ++ stringText k ++ ':' :: ' ' :: v.indentedOnto (depth + 1)
      (indentedMembers (depth + 1) more (newLine depth ++ '}' :: after))

/-- The lines of further items of an array, in front of another text. -/
def indentedItems (depth : Nat) : List Json → List Char → List Char
  | [], after => after
  | v :: more, after =>
    ',' :: newLine depth ++ v.indentedOnto depth (indentedItems depth more after)

/-- The lines of further members of an object, in front of another text. -/
def indentedMembers (depth : Nat) : List (String × Json) → List Char → List Char
  | [], after => after
  | (k, v) :: more, after =>
    ',' :: newLine depth ++ stringText k ++ ':' :: ' ' ::
      v.indentedOnto depth (indentedMembers depth more after)

end

/-- The text of a value with one line for each item and member, indented by tabs. -/
def indented (v : Json) : String :=
  String.ofList (v.indentedOnto 0 [])

end InterfaceSchema.Json
