import InterfaceSchema.Text.Cut

/-!
# Paths

Paths as they are written. Joining puts texts together and normalizes nothing; taking a path apart
passes over empty pieces and over single dots, except for one at the front. Names that are met in
a directory are bytes and need not be text.

## Main definitions

* `Path.join` — a path followed by another.
* `Path.components`, `Path.ofComponents` — a path in parts.
* `Path.ancestors` — what is left when parts are removed from the end, one after the other.
* `Path.fileName?` — the name at the end.
* `RawName`, `extension?` — a name as bytes, and what follows its last dot.
-/

namespace InterfaceSchema

/-- A path as it is written. -/
structure Path where
  text : String
  deriving DecidableEq, Repr, Inhabited

/-- A part of a path. -/
inductive Component where
  /-- The slash at the front of an absolute path. -/
  | root
  /-- A single dot at the front of a relative path. -/
  | here
  /-- Two dots. -/
  | up
  | normal (name : String)
  deriving DecidableEq, Repr

/-- How a part is written. -/
def Component.text : Component → String
  | .root => "/"
  | .here => "."
  | .up => ".."
  | .normal name => name

namespace Path

/-- Whether the path starts at the root. -/
def isAbsolute (p : Path) : Bool :=
  p.text.toList.head? == some '/'

/-- A path followed by another. An absolute one replaces the first; otherwise a slash stands
between them, unless the first is empty or already ends in one. -/
def join (p : Path) (rest : String) : Path :=
  if (Path.mk rest).isAbsolute then ⟨rest⟩
  else if p.text.isEmpty || p.text.toList.getLast? == some '/' then ⟨p.text ++ rest⟩
  else ⟨p.text ++ "/" ++ rest⟩

/-- The pieces between slashes that are not empty. -/
def segments (p : Path) : List String :=
  ((splitAt '/' p.text.toList).filter (!·.isEmpty)).map String.ofList

/-- A piece of a path as one of its parts. -/
def segmentComponent (segment : String) : Option Component :=
  if segment = "." then none
  else if segment = ".." then some .up
  else some (.normal segment)

/-- The parts of a path. -/
def components (p : Path) : List Component :=
  if p.isAbsolute then .root :: p.segments.filterMap segmentComponent
  else match p.segments with
    | "." :: rest => .here :: rest.filterMap segmentComponent
    | segments => segments.filterMap segmentComponent

/-- The path of the given parts. -/
def ofComponents : List Component → Path
  | .root :: rest => ⟨"/" ++ "/".intercalate (rest.map Component.text)⟩
  | parts => ⟨"/".intercalate (parts.map Component.text)⟩

/-- The beginnings of a list, the longest first, without the list itself. -/
def shorter {α : Type} : List α → List (List α)
  | [] => []
  | x :: rest => (shorter rest).map (x :: ·) ++ [[]]

/-- The paths left when parts are removed from the end, one after the other: down to the root, or
to the empty path for a relative one. -/
def ancestors (p : Path) : List Path :=
  ((shorter p.components).filter fun parts => !(p.isAbsolute && parts.isEmpty)).map ofComponents

/-- The name at the end of the path. -/
def fileName? (p : Path) : Option String :=
  match p.components.getLast? with
  | some (.normal name) => some name
  | _ => none

end Path

/-- A name of a file or directory as the bytes it is made of. -/
abbrev RawName := List UInt8

/-- What follows the last dot of a file name. A name without a dot, or whose only dot is its first
byte, has no extension. -/
def extension? (name : RawName) : Option RawName :=
  if name = [0x2E, 0x2E] then none
  else match splitAt 0x2E name with
    | [] | [_] | [[], _] => none
    | pieces => pieces.getLast?

end InterfaceSchema
