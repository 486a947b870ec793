import InterfaceSchema.Grammar
import InterfaceSchema.Text.Visible

/-!
# Command line arguments

Options may stand before or after the project root, and two dashes end them. The value of an
option, and the root, are only judged when the next argument that is understood comes along, or at
the end: an unknown argument in between is reported first. Help and version are given as soon as
they are asked for.

## Main definitions

* `Options`, `Request` — what the arguments ask for.
* `UsageError` — why they cannot be understood.
* `Request.ofArguments` — reading the arguments.
-/

namespace InterfaceSchema.CommandLine

/-- The choices made on the command line. -/
structure Options where
  root : Option String := none
  init : Bool := false
  placement : Option SignaturePlacement := none
  verbose : Bool := false
  deriving DecidableEq, Repr, Inhabited

/-- What the arguments ask for. -/
inductive Request where
  | shortHelp
  | longHelp
  | version
  | run (options : Options)
  deriving DecidableEq, Repr

/-- Why the arguments cannot be understood. -/
inductive UsageError where
  | unexpectedArgument (argument : String)
  | unexpectedValue (value argument : String)
  | valueRequired (argument : String)
  | invalidValue (value argument : String)
  | repeated (argument : String)
  deriving DecidableEq, Repr

/-- The line that reports the error. What the user has written is shown as visible text. -/
def UsageError.message : UsageError → String
  | .unexpectedArgument argument => "error: unexpected argument '" ++ visible argument ++ "' found"
  | .unexpectedValue value argument =>
    "error: unexpected value '" ++ visible value ++ "' for '" ++ argument
      ++ "' found; no more were expected"
  | .valueRequired argument =>
    "error: a value is required for '" ++ argument ++ "' but none was supplied"
  | .invalidValue value argument =>
    "error: invalid value '" ++ visible value ++ "' for '" ++ argument ++ "'"
  | .repeated argument => "error: the argument '" ++ argument ++ "' cannot be used multiple times"

/-- How the option for the placement of index signatures is called in messages. -/
def placementUsage : String := "--index-encoding <INDEX_ENCODING>"

/-- How the project root is called in messages. -/
def rootUsage : String := "[ROOT]"

/-- An argument that has not been judged yet. -/
inductive Pending where
  /-- The placement option without its value. -/
  | placement
  /-- The placement option with its value. -/
  | placementValue (value : String)
  | root (value : String)
  deriving DecidableEq, Repr

/-- The arguments read so far: the choices judged, the argument not judged yet, whether there has
been a root, and whether options are over. -/
structure Scan where
  options : Options := {}
  pending : Option Pending := none
  rootSeen : Bool := false
  onlyValues : Bool := false
  deriving DecidableEq, Repr

namespace Scan

/-- Judge a value of the placement option. -/
def choosePlacement (s : Scan) (value : String) : Except UsageError Scan :=
  if s.options.placement.isSome then .error (.repeated placementUsage)
  else if value.isEmpty then .error (.valueRequired placementUsage)
  else match SignaturePlacement.ofName? value with
    | some p => .ok { s with options := { s.options with placement := some p } }
    | none => .error (.invalidValue value placementUsage)

/-- Judge the argument that has not been judged yet. -/
def settle (s : Scan) : Except UsageError Scan :=
  let judged := { s with pending := none }
  match s.pending with
  | none => .ok s
  | some .placement => .error (.valueRequired placementUsage)
  | some (.placementValue value) => judged.choosePlacement value
  | some (.root value) =>
    if value.isEmpty then .error (.valueRequired rootUsage)
    else .ok { judged with options := { s.options with root := some value } }

/-- Read an option that is either there or not. -/
def setFlag (s : Scan) (argument : String) (isSet : Options → Bool) (set : Options → Options) :
    Except UsageError Scan := do
  let s ← s.settle
  if isSet s.options then throw (.repeated argument)
  else return { s with options := set s.options }

/-- Read the option `--init`. -/
def setInit (s : Scan) : Except UsageError Scan :=
  s.setFlag "--init" Options.init ({ · with init := true })

/-- Read the option `--verbose`. -/
def setVerbose (s : Scan) : Except UsageError Scan :=
  s.setFlag "--verbose" Options.verbose ({ · with verbose := true })

/-- Read an argument that is a value: of the option before it, or the project root. -/
def value (s : Scan) (argument : String) : Except UsageError Scan := do
  if s.pending = some .placement ∧ !s.onlyValues then
    return { s with pending := some (.placementValue argument) }
  else if s.rootSeen then throw (.unexpectedArgument argument)
  else
    let s ← s.settle
    return { s with pending := some (.root argument), rootSeen := true }

end Scan

/-- What reading an argument leads to: reading on, or an answer at once. -/
inductive Next where
  | scan (s : Scan)
  | answer (r : Request)

/-- Read an option without a value attached, or refuse the value attached. -/
def plainOption (argument : String) (attached : Option String) (next : Except UsageError Next) :
    Except UsageError Next :=
  match attached with
  | some value => .error (.unexpectedValue value argument)
  | none => next

/-- Read an option given by its long name, with the value attached to it. -/
def longOption (s : Scan) (name : String) (attached : Option String) :
    Except UsageError Next :=
  if name = "init" then plainOption "--init" attached (s.setInit.map .scan)
  else if name = "verbose" then plainOption "--verbose" attached (s.setVerbose.map .scan)
  else if name = "help" then
    plainOption "--help" attached (s.settle.map fun _ => .answer .longHelp)
  else if name = "version" then
    plainOption "--version" attached (s.settle.map fun _ => .answer .version)
  else if name = "index-encoding" then do
    let s ← s.settle
    match attached with
    | some value => return .scan (← s.choosePlacement value)
    | none => return .scan { s with pending := some .placement }
  else .error (.unexpectedArgument ("--" ++ name))

/-- Read options given by one letter each. -/
def shortOptions (s : Scan) : List Char → Except UsageError Next
  | [] => .ok (.scan s)
  | 'v' :: rest => do shortOptions (← s.setVerbose) rest
  | 'h' :: _ => s.settle.map fun _ => .answer .shortHelp
  | 'V' :: _ => s.settle.map fun _ => .answer .version
  | c :: _ => .error (.unexpectedArgument (String.ofList ['-', c]))

/-- A long option's name and the value attached to it by an equals sign. -/
def splitAttached (cs : List Char) : String × Option String :=
  let name := String.ofList (cs.takeWhile (· != '='))
  match cs.dropWhile (· != '=') with
  | [] => (name, none)
  | _ :: value => (name, some (String.ofList value))

/-- Read one argument. -/
def argument (s : Scan) (text : String) : Except UsageError Next :=
  if s.onlyValues then (s.value text).map .scan
  else match text.toList with
    | ['-', '-'] => .ok (.scan { s with onlyValues := true })
    | '-' :: '-' :: cs =>
      let (name, attached) := splitAttached cs
      longOption s name attached
    | ['-'] => (s.value text).map .scan
    | '-' :: cs => shortOptions s cs
    | _ => (s.value text).map .scan

/-- Read arguments to their end. -/
def arguments (s : Scan) : List String → Except UsageError Request
  | [] => s.settle.map fun s => .run s.options
  | text :: rest => do
    match ← argument s text with
    | .scan s => arguments s rest
    | .answer r => return r

/-- What arguments ask for. -/
def Request.ofArguments (texts : List String) : Except UsageError Request :=
  arguments {} texts

end InterfaceSchema.CommandLine
