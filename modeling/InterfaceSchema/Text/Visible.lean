import InterfaceSchema.Text.Utf8

/-!
# Visible text

What remains of a text when the control sequences of terminals are taken out of it, such as
changes of colour, together with every control character that does not move to another column
or line. A message that does not go to a terminal is shown in this form.

A control sequence begins with the escape character and is recognized character by character. A
blank control character inside a short sequence is shown, and so is everything up to the next
control character; the sequence is taken up again after that.

## Main definitions

* `Visible.Sequence` — how far into a control sequence a text is, and `Visible.Sequence.next`.
* `visible` — the visible text.
-/

namespace InterfaceSchema

namespace Visible

/-- Whether a code point lies between two bounds. -/
def between (low high : Nat) (c : Char) : Bool :=
  low ≤ c.toNat && c.toNat ≤ high

/-- The control characters that move on by columns or lines. -/
def isMove (c : Char) : Bool :=
  c == '\t' || c == '\n' || c == '\x0c' || c == '\r'

/-- The characters that are shown outside of control sequences. -/
def isShown (c : Char) : Bool :=
  isMove c || (0x20 ≤ c.toNat && c.toNat != 0x7F)

/-- How far into a control sequence a text is. -/
inductive Sequence where
  /-- Outside. -/
  | none
  /-- Behind the escape character. -/
  | escape
  /-- In an escape sequence of more than two characters. -/
  | longEscape
  /-- In the parameters of a control function. -/
  | control
  /-- In a command to the system around the terminal. -/
  | system
  /-- At the beginning of a device control string. -/
  | device
  /-- In the parameters of a device control string. -/
  | deviceParameters
  /-- Behind the parameters of a device control string. -/
  | deviceFunction
  /-- In a string that ends with the string terminator, or is cut off by an escape. -/
  | string
  deriving DecidableEq, Repr

/-- Whether the string terminator of one byte occurs among the bytes of a character. -/
def endsString (c : Char) : Bool :=
  (String.utf8EncodeChar c).contains 0x9C

/-- How far into a control sequence a text is after another character. -/
def Sequence.next (s : Sequence) (c : Char) : Sequence :=
  if c = '\x18' ∨ c = '\x1a' then .none
  else if c = '\x1b' then .escape
  else match s with
  | .none => .none
  | .escape =>
    if between 0x20 0x2F c then .longEscape
    else if c = '[' then .control
    else if c = ']' then .system
    else if c = 'P' then .device
    else if c = 'X' ∨ c = '^' ∨ c = '_' then .string
    else if between 0x30 0x7E c then .none
    else .escape
  | .longEscape => if between 0x30 0x7E c then .none else .longEscape
  | .control => if between 0x40 0x7E c then .none else .control
  | .system => if c = '\x07' then .none else .system
  | .device =>
    if between 0x20 0x2F c then .deviceFunction
    else if between 0x30 0x3F c then .deviceParameters
    else if between 0x40 0x7E c then .string
    else .device
  | .deviceParameters =>
    if between 0x20 0x2F c then .deviceFunction
    else if between 0x3C 0x7E c then .string
    else .deviceParameters
  | .deviceFunction => if between 0x30 0x7E c then .string else .deviceFunction
  | .string => if endsString c then .none else .string

/-- Whether a character is shown when a text is so far into a control sequence. -/
def Sequence.shows (s : Sequence) (c : Char) : Bool :=
  match s with
  | .none => isShown c
  | .escape | .longEscape | .control => isMove c
  | .system | .device | .deviceParameters | .deviceFunction | .string => false

/-- The visible characters of a text, which begins so far into a control sequence. While
characters are `showing`, only one that is never shown leads back into the sequence, and a
character of more than one byte closes it. -/
def chars (s : Sequence) (showing : Bool) : List Char → List Char
  | [] => []
  | c :: rest =>
    if showing && isShown c then
      c :: chars (if c.toNat < 0x80 then s else .none) true rest
    else if s.shows c then c :: chars (s.next c) true rest
    else chars (s.next c) false rest

end Visible

/-- The visible text. -/
def visible (s : String) : String :=
  String.ofList (Visible.chars .none false s.toList)

end InterfaceSchema
