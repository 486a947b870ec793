import InterfaceSchema.Generation

/-!
# Error reports

A failure is reported with what was being done and with its causes, each cause explained by the
next one. The causes are numbered when there is more than one.

## Main definitions

* `Failure` — what a command may fail in.
* `Failure.report` — the report.
-/

namespace InterfaceSchema

/-! ## Causes -/

/-- A reason and what is behind it. -/
def SettingsError.causes : SettingsError → List String
  | .read path reason => [message (.read path reason), reason.message]
  | .parse path reason => [message (.parse path reason), reason.message]
  | .write path reason => [message (.write path reason), reason.message]

/-- A reason and what is behind it. -/
def SourceError.causes : SourceError → List String
  | .access reason => [message (.access reason), reason.message]
  | .listing path reason =>
    [message (.listing path reason), listingMessage path reason, reason.message]
  | e => [e.message]

/-- A reason and what is behind it. -/
def PublishError.causes : PublishError → List String
  | .write path reason => [message (.write path reason), reason.message]
  | e => [e.message]

/-- A reason and what is behind it. -/
def GenerateError.causes : GenerateError → List String
  | .discover reason => message (.discover reason) :: reason.causes
  | .read path reason => message (.read path reason) :: reason.causes
  | .publish reason => reason.causes

namespace CommandLine

/-- What a command may fail in. -/
inductive Failure where
  | init (reason : SettingsError)
  | load (reason : SettingsError)
  | prepare (outDir : Path) (reason : AccessError)
  | generate (reason : GenerateError)
  deriving DecidableEq, Repr

/-- What was being done. -/
def Failure.context : Failure → String
  | .init _ => "write ischema.json"
  | .load _ => "load ischema.json"
  | .prepare outDir _ => "create output directory " ++ outDir.text
  | .generate _ => "schema generation failed"

/-- Why it failed. -/
def Failure.causes : Failure → List String
  | .init reason => reason.causes
  | .load reason => reason.causes
  | .prepare _ reason => SourceError.causes (.access reason)
  | .generate reason => reason.causes

/-! ## Layout -/

/-- A text of several lines with a beginning for the first and one for the others. -/
def hanging (first others text : String) : String :=
  match (splitAt '\n' text.toList).map String.ofList with
  | [] => first
  | line :: rest => first ++ line ++ String.join (rest.map fun l => "\n" ++ others ++ l)

/-- A number before the text of a cause. -/
def numbered (n : Nat) (cause : String) : String :=
  let digits := toString n
  let padding := String.ofList (List.replicate (5 - digits.length) ' ')
  hanging (padding ++ digits ++ ": ") "       " cause

/-- The report on a failure. -/
def Failure.report (f : Failure) : String :=
  let lines := match f.causes with
    | [cause] => [hanging "    " "    " cause]
    | causes => causes.mapIdx numbered
  "Error: " ++ f.context ++ "\n\nCaused by:\n" ++ String.join (lines.map (· ++ "\n"))

end CommandLine

end InterfaceSchema
