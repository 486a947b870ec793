import InterfaceSchema.Proofs.Cutting
import InterfaceSchema.Source

/-!
# Feeding a builder

What a builder is after tokens, and what one token does to it. A builder works on its innermost
level only: the innermost open object, or the root when none is open.

## Main definitions

* `typeStart?` — what may follow the name of a member.
* `InterfaceBuilder.after` — the builder after tokens.
* `InterfaceBuilder.innermost` — the level that the next entry goes to.
* `InterfaceBuilder.closeWith` — the builder after the innermost object has been closed.
-/

namespace InterfaceSchema

namespace Frame

@[simp] theorem ofName_name (name : String) : (ofName name).name = name := rfl

@[simp] theorem addMember_name (f : Frame) (name : String) (type : TypeExpr) :
    (f.addMember name type).name = f.name := rfl

@[simp] theorem addSignature_name (f : Frame) (key value : String) :
    (f.addSignature key value).name = f.name := rfl

end Frame

/-- What begins the type of a member: the brace of an object, or one word for all of it. -/
def typeStart? (token : String) : Option (Option String) :=
  if token = "\x7b" then some none else (stripSuffix? ";" token).map some

namespace InterfaceBuilder

variable (g : Grammar) (b : InterfaceBuilder)

/-! ## Levels -/

/-- The level that the next entry goes to. -/
def innermost : Frame :=
  b.frames.headD b.root

@[simp] theorem modifyInnermost_expecting (f : Frame → Frame) :
    (b.modifyInnermost f).expecting = b.expecting := by
  unfold modifyInnermost
  split <;> rfl

@[simp] theorem innermost_modifyInnermost (f : Frame → Frame) :
    (b.modifyInnermost f).innermost = f b.innermost := by
  obtain ⟨root, frames, expecting⟩ := b
  cases frames <;> rfl

theorem modifyInnermost_modifyInnermost (f h : Frame → Frame) :
    (b.modifyInnermost f).modifyInnermost h = b.modifyInnermost (h ∘ f) := by
  obtain ⟨root, frames, expecting⟩ := b
  cases frames <;> rfl

@[simp] theorem modifyInnermost_frames_eq_nil (f : Frame → Frame) :
    (b.modifyInnermost f).frames = [] ↔ b.frames = [] := by
  obtain ⟨root, frames, expecting⟩ := b
  cases frames <;> simp [modifyInnermost]

@[simp] theorem depth_modifyInnermost (f : Frame → Frame) :
    (b.modifyInnermost f).depth = b.depth := by
  obtain ⟨root, frames, expecting⟩ := b
  cases frames <;> rfl

theorem modifyInnermost_with_expecting (e : Expectation) (f : Frame → Frame) :
    modifyInnermost { b with expecting := e } f = { b.modifyInnermost f with expecting := e } := by
  obtain ⟨root, frames, expecting⟩ := b
  cases frames <;> rfl

theorem with_entry {b : InterfaceBuilder} (h : b.expecting = .entry) :
    { b with expecting := .entry } = b := by
  rw [← h]

/-- Below an open object the root stays as it is. -/
theorem modifyInnermost_root (f : Frame → Frame) (h : b.frames ≠ []) :
    (b.modifyInnermost f).root = b.root := by
  obtain ⟨root, frames, expecting⟩ := b
  cases frames with
  | nil => exact absurd rfl h
  | cons frame rest => rfl

/-- The builder after the innermost object has been closed with the given content. -/
def closeWith (inner : Interface) : InterfaceBuilder :=
  modifyInnermost { b with frames := b.frames.tail } (·.addMember b.innermost.name (.object inner))

theorem closeWith_modifyInnermost {f : Frame → Frame} (hf : ∀ frame, (f frame).name = frame.name)
    (inner : Interface) : (b.modifyInnermost f).frames ≠ [] →
      (b.modifyInnermost f).closeWith inner = b.closeWith inner := by
  obtain ⟨root, frames, expecting⟩ := b
  cases frames with
  | nil => intro h; exact absurd rfl h
  | cons frame rest =>
    intro _
    simp [closeWith, modifyInnermost, innermost, hf frame]

theorem close?_eq (h : b.frames ≠ []) : b.close? = some (b.closeWith b.innermost.interface) := by
  obtain ⟨root, frames, expecting⟩ := b
  cases frames with
  | nil => exact absurd rfl h
  | cons frame rest => rfl

/-! ## Runs -/

/-- The builder after tokens. -/
def after (tokens : List String) : InterfaceBuilder :=
  (b.feedAll g tokens).1

@[simp] theorem after_nil : b.after g [] = b := rfl

theorem after_cons (token : String) (rest : List String) :
    b.after g (token :: rest) = ((b.step? g token).getD b).after g rest := by
  simp only [after, feedAll, feed]
  cases b.step? g token <;> rfl

variable {g b}

theorem after_cons_of_step {token : String} {next : InterfaceBuilder}
    (h : b.step? g token = some next) (rest : List String) :
    b.after g (token :: rest) = next.after g rest := by
  rw [after_cons, h, Option.getD_some]

theorem after_cons_of_refused {token : String} (h : b.step? g token = none)
    (rest : List String) : b.after g (token :: rest) = b.after g rest := by
  rw [after_cons, h, Option.getD_none]

variable (g b)

theorem after_append (front rest : List String) :
    b.after g (front ++ rest) = (b.after g front).after g rest := by
  induction front generalizing b with
  | nil => rfl
  | cons token front ih => rw [List.cons_append, after_cons, after_cons, ih]

/-! ## Steps where an entry may begin -/

variable {g b}

theorem step?_opener (h : b.expecting = .entry) :
    b.step? g (g.indexOpener ++ ":") = some { b with expecting := .indexKey } := by
  simp [step?, h, entry?]

theorem step?_name (h : b.expecting = .entry) {name : String} (hg : name ≠ g.indexOpener)
    (hne : name ≠ "") :
    b.step? g (name ++ ":") = some { b with expecting := .memberType name } := by
  simp [step?, h, entry?, hg, hne]

/-- A closing brace, with or without a semicolon, closes the innermost object. -/
theorem step?_closer (h : b.expecting = .entry) (hb : b.frames ≠ []) {token : String}
    (ht : token = "\x7d" ∨ token = "\x7d;") :
    b.step? g token = some (b.closeWith b.innermost.interface) := by
  have hcolon : stripSuffix? ":" token = none := by
    rcases ht with rfl | rfl <;> decide
  simp [step?, h, entry?, hcolon, ht, b.close?_eq hb]

/-- A token that neither begins an entry nor closes an object is refused. -/
theorem step?_other (he : b.expecting = .entry) {token : String}
    (hcolon : stripSuffix? ":" token = none)
    (hclose : ¬(b.frames ≠ [] ∧ (token = "\x7d" ∨ token = "\x7d;"))) :
    b.step? g token = none := by
  simp only [step?, he, entry?, hcolon]
  split_ifs with ht
  · have hb : b.frames = [] := not_not.1 fun hb => hclose ⟨hb, ht⟩
    simp [close?, hb]
  · rfl

/-- A name that is missing in front of its colon is refused. -/
theorem step?_nameless (he : b.expecting = .entry) {token : String}
    (hcolon : stripSuffix? ":" token = some "") (hopener : "" ≠ g.indexOpener) :
    b.step? g token = none := by
  simp [step?, he, entry?, hcolon, hopener]

/-! ## Steps inside an entry -/

theorem step?_indexKey (token : String) :
    step? g { b with expecting := .indexKey } token =
      (stripSuffix? "]:" token).map fun key => { b with expecting := .indexValue key } := rfl

theorem step?_indexValue (h : b.expecting = .entry) (key token : String) :
    step? g { b with expecting := .indexValue key } token =
      (stripSuffix? ";" token).map fun value => b.modifyInnermost (·.addSignature key value) := by
  have hback (f : Frame → Frame) : { b.modifyInnermost f with expecting := .entry }
      = b.modifyInnermost f := with_entry (by simp [h])
  simp only [step?, modifyInnermost_with_expecting, hback]

/-- The builder after the beginning of a member's type. -/
def beginType (b : InterfaceBuilder) (name : String) : Option String → InterfaceBuilder
  | some type => b.modifyInnermost (·.addMember name (.named type))
  | none => { b with frames := .ofName name :: b.frames }

theorem step?_memberType (h : b.expecting = .entry) (name token : String) :
    step? g { b with expecting := .memberType name } token =
      (typeStart? token).map (b.beginType name) := by
  have hback (f : Frame → Frame) : { b.modifyInnermost f with expecting := .entry }
      = b.modifyInnermost f := with_entry (by simp [h])
  simp only [step?, memberType?, typeStart?]
  split_ifs
  · simp [beginType, h]
  · simp only [Option.map_map, modifyInnermost_with_expecting, hback]
    rfl

end InterfaceBuilder

end InterfaceSchema
