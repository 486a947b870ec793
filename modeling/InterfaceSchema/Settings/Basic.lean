import InterfaceSchema.Grammar
import InterfaceSchema.Json.Printer
import InterfaceSchema.SourceFilter

/-!
# Settings

What a project may choose, with a default for every choice, and the plan that results once its
directories are placed under the project's root.

## Main definitions

* `Settings` — the choices, and `Settings.toJson`, the document that holds them.
* `Plan` — the choices of a project with its directories in place.
-/

namespace InterfaceSchema

/-- The choices of a project. -/
structure Settings where
  /-- The directory searched for sources. -/
  rootDir : String := "."
  /-- The directory for the schema files. -/
  outDir : String := "."
  filter : SourceFilter := {}
  /-- The size in bytes above which a source is refused. -/
  maxFileSize : UInt64 := 8 * 1024 * 1024
  placement : SignaturePlacement := .legacy
  grammar : Grammar := {}
  deriving DecidableEq, Repr, Inhabited

/-- What one run works with. -/
structure Plan where
  rootDir : Path
  outDir : Path
  filter : SourceFilter
  maxFileSize : UInt64
  placement : SignaturePlacement
  grammar : Grammar
  deriving DecidableEq, Repr, Inhabited

/-- A grammar as the members of a JSON object. -/
def Grammar.jsonMembers (g : Grammar) : List (String × Json) :=
  [("startMarker", .string g.startMarker),
    ("endMarker", .string g.endMarker),
    ("indexOpener", .string g.indexOpener)]

/-- A grammar as JSON. -/
def Grammar.toJson (g : Grammar) : Json :=
  .object g.jsonMembers

/-- A placement as JSON. -/
def SignaturePlacement.toJson (p : SignaturePlacement) : Json :=
  .string p.name

namespace Settings

/-- The choices as the members of a JSON object. -/
def jsonMembers (s : Settings) : List (String × Json) :=
  [("rootDir", .string s.rootDir),
    ("outDir", .string s.outDir),
    ("extensions", .array (s.filter.extensions.map .string)),
    ("skipDirs", .array (s.filter.skipDirs.map .string)),
    ("skipHidden", .bool s.filter.skipHidden),
    ("maxFileSize", .number (.integer s.maxFileSize.toNat)),
    ("indexEncoding", s.placement.toJson)] ++ s.grammar.jsonMembers

/-- The document that holds the choices. -/
def toJson (s : Settings) : Json :=
  .object [("options", .object s.jsonMembers)]

/-- The plan for the project at `root`: its directories are taken from there unless they are
absolute. -/
def resolve (s : Settings) (root : Path) : Plan where
  rootDir := root.join s.rootDir
  outDir := root.join s.outDir
  filter := s.filter
  maxFileSize := s.maxFileSize
  placement := s.placement
  grammar := s.grammar

end Settings

end InterfaceSchema
