import InterfaceSchema.Text.LowerCase.Table

/-!
# Lower case

The lower-case form of a text, by the full Unicode mapping: a capital I with a dot becomes two
characters, and a capital sigma at the end of a word takes its final form.

## Main definitions

* `lowerCase` — the lower-case form of a text.
-/

namespace InterfaceSchema

namespace LowerCase

/-- Whether the rule speaks about the code point. -/
def Rule.applies (r : Rule) (n : Nat) : Bool :=
  r.first ≤ n && n ≤ r.last && (n - r.first) % r.step == 0

/-- The lower-case form of one character, regardless of its neighbours. -/
def ofChar (c : Char) : List Char :=
  if c = '\u0130' then ['i', '\u0307']
  else match rules.find? (·.applies c.toNat) with
    | some r => [Char.ofNat (Int.ofNat c.toNat + r.shift).toNat]
    | none => [c]

/-- Whether a cased character comes next when those that do not matter for case are passed over. -/
def casedNext (cs : List Char) : Bool :=
  match cs.dropWhile caseIgnorable.contains with
  | c :: _ => cased.contains c
  | [] => false

/-- The lower-case form of `cs`, read after the characters `before`, nearest first. -/
def after (before : List Char) : List Char → List Char
  | [] => []
  | c :: rest =>
    (if c = 'Σ' then (if casedNext before && !casedNext rest then ['ς'] else ['σ']) else ofChar c)
      ++ after (c :: before) rest

end LowerCase

/-- The lower-case form of a text. -/
def lowerCase (s : String) : String :=
  String.ofList (LowerCase.after [] s.toList)

end InterfaceSchema
