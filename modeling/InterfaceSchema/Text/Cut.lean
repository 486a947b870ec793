/-!
# Cutting texts

Splitting at a separator, be it a character or a byte, and removing a known ending.
-/

namespace InterfaceSchema

/-- The pieces between the separators: one more than there are separators, empty ones included. -/
def splitAt {α : Type} [DecidableEq α] (sep : α) (cs : List α) : List (List α) :=
  cs.foldr (fun c pieces =>
    if c = sep then [] :: pieces
    else match pieces with
      | [] => [[c]]
      | piece :: rest => (c :: piece) :: rest) [[]]

/-- What stands before the given ending, if the text ends so. -/
def stripSuffix? (ending s : String) : Option String :=
  if ending.toList.isSuffixOf s.toList then
    some (String.ofList (s.toList.take (s.toList.length - ending.toList.length)))
  else none

end InterfaceSchema
