import InterfaceSchema.Declaration
import InterfaceSchema.Event
import InterfaceSchema.Interface.Basic

/-!
# Building interface trees

A builder reads the tokens of a declaration body one at a time. It keeps the objects that are open,
innermost first, so that nesting is bounded by nothing, and it knows what may come next. A token
that does not fit changes nothing.

## Main definitions

* `Frame` — an object in the course of reading.
* `InterfaceBuilder.step?` — the builder after a token, unless the token does not fit.
* `InterfaceBuilder.feed` — a step that reports tokens that do not fit.
* `InterfaceBuilder.finish` — the tree read so far, without the objects still open.
* `Declaration.interface` — the tree of a declaration.
-/

namespace InterfaceSchema

/-- An object in the course of reading. -/
structure Frame where
  name : String
  members : FieldMap TypeExpr
  /-- The index signatures, newest first. -/
  signatures : List IndexSignature
  deriving DecidableEq

namespace Frame

/-- An object of a given name of which nothing has been read. -/
def ofName (name : String) : Frame := ⟨name, ∅, []⟩

/-- Add or replace a member. -/
def addMember (f : Frame) (name : String) (type : TypeExpr) : Frame :=
  { f with members := f.members.insert name type }

/-- Add an index signature behind the others. -/
def addSignature (f : Frame) (key value : String) : Frame :=
  { f with signatures := ⟨key, .named value⟩ :: f.signatures }

/-- What has been read of the object. -/
def interface (f : Frame) : Interface := ⟨f.name, f.members, f.signatures.reverse⟩

end Frame

/-- A declaration body between two tokens. -/
structure InterfaceBuilder where
  /-- The declared interface as far as it has been read. -/
  root : Frame
  /-- The open objects, innermost first. -/
  frames : List Frame
  expecting : Expectation
  deriving DecidableEq

namespace InterfaceBuilder

/-- The empty body of the declaration of a given name. -/
def start (name : String) : InterfaceBuilder := ⟨.ofName name, [], .entry⟩

/-- How many objects are open. -/
def depth (b : InterfaceBuilder) : Nat :=
  b.frames.length

/-- Change the innermost open object, or the root when none is open. -/
def modifyInnermost (b : InterfaceBuilder) (f : Frame → Frame) : InterfaceBuilder :=
  match b.frames with
  | [] => { b with root := f b.root }
  | frame :: rest => { b with frames := f frame :: rest }

/-- Close the innermost open object: it becomes a member of the level around it, under its own
name. -/
def close? (b : InterfaceBuilder) : Option InterfaceBuilder :=
  match b.frames with
  | [] => none
  | frame :: rest =>
    some (modifyInnermost { b with frames := rest } (·.addMember frame.name (.object frame.interface)))

/-- Read a token where an entry may begin. -/
def entry? (g : Grammar) (b : InterfaceBuilder) (token : String) : Option InterfaceBuilder :=
  match stripSuffix? ":" token with
  | some name =>
    if name = g.indexOpener then some { b with expecting := .indexKey }
    else if name = "" then none
    else some { b with expecting := .memberType name }
  | none => if token = "\x7d" ∨ token = "\x7d;" then b.close? else none

/-- Read a token where the type of a member is expected. -/
def memberType? (b : InterfaceBuilder) (name token : String) : Option InterfaceBuilder :=
  if token = "\x7b" then
    some { b with frames := .ofName name :: b.frames, expecting := .entry }
  else (stripSuffix? ";" token).map fun type =>
    { b.modifyInnermost (·.addMember name (.named type)) with expecting := .entry }

/-- The builder after one more token, unless the token does not fit. -/
def step? (g : Grammar) (b : InterfaceBuilder) (token : String) : Option InterfaceBuilder :=
  match b.expecting with
  | .entry => b.entry? g token
  | .indexKey => (stripSuffix? "]:" token).map fun key => { b with expecting := .indexValue key }
  | .indexValue key => (stripSuffix? ";" token).map fun value =>
    { b.modifyInnermost (·.addSignature key value) with expecting := .entry }
  | .memberType name => b.memberType? name token

/-- Read one token, reporting it if it does not fit. -/
def feed (g : Grammar) (b : InterfaceBuilder) (token : String) : InterfaceBuilder × List Event :=
  match b.step? g token with
  | some next => (next, [])
  | none => (b, [.ignoredToken b.root.name b.expecting token])

/-- Read tokens in order. -/
def feedAll (g : Grammar) (b : InterfaceBuilder) : List String → InterfaceBuilder × List Event
  | [] => (b, [])
  | token :: rest =>
    let (next, events) := b.feed g token
    let (last, later) := next.feedAll g rest
    (last, events ++ later)

/-- The tree read so far. Objects still open are dropped, with a report. -/
def finish (b : InterfaceBuilder) : Interface × List Event :=
  (b.root.interface, if b.frames.isEmpty then [] else [.unclosedObjects b.root.name b.depth])

end InterfaceBuilder

/-- The interface tree of a declaration. -/
def Declaration.interface (g : Grammar) (d : Declaration) : Interface × List Event :=
  let (b, events) := (InterfaceBuilder.start d.name).feedAll g d.body
  let (i, later) := b.finish
  (i, events ++ later)

end InterfaceSchema
