/-!
# Help

The texts that explain the command line, in full and in short.
-/

namespace InterfaceSchema.CommandLine

/-- The text of the given lines, each of them ended. -/
def linesText (lines : List String) : String :=
  String.join (lines.map (· ++ "\n"))

/-- Name and version. -/
def versionText : String := linesText ["ischema 0.1.1"]

/-- What both texts begin with. -/
def helpHead : List String := [
  "Compile /* SCHEMA */ interface blocks into JSON Schema (draft-07) files.",
  "",
  "Usage: ischema [OPTIONS] [ROOT]",
  "",
  "Arguments:"]

/-- The full explanation. -/
def longHelpText : String := linesText (helpHead ++ [
  "  [ROOT]",
  "          Project root holding ischema.json (default: current directory)",
  "",
  "Options:",
  "      --init",
  "          Write a starter ischema.json into the project root and exit",
  "",
  "      --index-encoding <INDEX_ENCODING>",
  "          Where nested index signatures go (overrides ischema.json)",
  "",
  "          Possible values:",
  "          - legacy:  Root in \x60$comment\x60, nested objects in \x60description\x60",
  "          - uniform: \x60$comment\x60 at every level",
  "",
  "  -v, --verbose",
  "          Debug logging (RUST_LOG takes precedence)",
  "",
  "  -h, --help",
  "          Print help (see a summary with '-h')",
  "",
  "  -V, --version",
  "          Print version"])

/-- The explanation in short. -/
def shortHelpText : String := linesText (helpHead ++ [
  "  [ROOT]  Project root holding ischema.json (default: current directory)",
  "",
  "Options:",
  "      --init",
  "          Write a starter ischema.json into the project root and exit",
  "      --index-encoding <INDEX_ENCODING>",
  "          Where nested index signatures go (overrides ischema.json) "
    ++ "[possible values: legacy, uniform]",
  "  -v, --verbose",
  "          Debug logging (RUST_LOG takes precedence)",
  "  -h, --help",
  "          Print help (see more with '--help')",
  "  -V, --version",
  "          Print version"])

end InterfaceSchema.CommandLine
