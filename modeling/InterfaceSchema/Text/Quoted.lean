import InterfaceSchema.Text.Quoted.Table

/-!
# Quoted texts

A text between double quotes, in which every character can be seen: quotes and backslashes are
escaped, and a character without a picture of its own is spelled by its code point.
-/

namespace InterfaceSchema

namespace Quoted

/-- A code point as `\u` and its hexadecimal digits in braces. -/
def codePoint (c : Char) : List Char :=
  ['\\', 'u', '{'] ++ Nat.toDigits 16 c.toNat ++ ['}']

/-- One character inside the quotes. -/
def ofChar (c : Char) : List Char :=
  if c = '\x00' then ['\\', '0']
  else if c = '\t' then ['\\', 't']
  else if c = '\r' then ['\\', 'r']
  else if c = '\n' then ['\\', 'n']
  else if c = '\\' then ['\\', '\\']
  else if c = '"' then ['\\', '"']
  else if unpictured.contains c then codePoint c
  else [c]

end Quoted

/-- The text between double quotes. -/
def quoted (s : String) : String :=
  String.ofList ('"' :: s.toList.flatMap Quoted.ofChar ++ ['"'])

end InterfaceSchema
