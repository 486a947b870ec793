import InterfaceSchema.Event
import InterfaceSchema.FileTree.Access
import InterfaceSchema.Settings.Reader

/-!
# Settings files

Where a project keeps its settings, what loading them may run into, and the file that a new
project starts from.

## Main definitions

* `Settings.load` — the settings of a project, defaults if it has no file.
* `Settings.writeStarter` — write the file of a new project.
-/

namespace InterfaceSchema

/-- Why settings cannot be loaded or written. -/
inductive SettingsError where
  | read (path : Path) (reason : AccessError)
  | parse (path : Path) (reason : Json.ReadError)
  | write (path : Path) (reason : AccessError)
  deriving DecidableEq, Repr

/-- The wording of a reason. -/
def SettingsError.message : SettingsError → String
  | .read path reason => "Failed to read config " ++ path.text ++ ": " ++ reason.message
  | .parse path reason => "Failed to parse config " ++ path.text ++ ": " ++ reason.message
  | .write path reason => "Failed to write config " ++ path.text ++ ": " ++ reason.message

namespace Settings

/-- The name of the settings file. -/
def fileName : String := "ischema.json"

/-- Where the project at `root` keeps its settings. -/
def file (root : Path) : Path := root.join fileName

/-- The settings of the project at `root`. -/
def load (t : FileTree) (root : Path) : Except SettingsError Settings × List Event :=
  let path := file root
  if !t.pathExists path then (.ok {}, [.defaultSettings path])
  else match t.read path with
    | .error reason => (.error (.read path reason), [])
    | .ok bytes =>
      match read bytes with
      | .error reason => (.error (.parse path reason), [])
      | .ok settings => (.ok settings, [])

/-- What a new project's settings file says. -/
def starterText : String :=
  "\x7b\n\t\"options\": \x7b\n\t\t\"rootDir\": \".\",\n\t\t\"outDir\": \"./schemas\"\n\t\x7d\n\x7d"

/-- Write the settings file of a new project over any that is there. -/
def writeStarter (t : FileTree) (root : Path) : Except SettingsError (Path × FileTree) :=
  let path := file root
  match t.write path (utf8 starterText) with
  | .ok written => .ok (path, written)
  | .error reason => .error (.write path reason)

end Settings

end InterfaceSchema
