import InterfaceSchema.Proofs.Invariant

/-!
# A builder in registers

A builder keeps what was read of an entry begun together with what it expects next, so nothing can
be kept where it does not belong. Here is the same reader with a register for each thing: a phase, a
name that waits for its type, and a key that waits for its value. The registers could hold anything
in any phase, and a missing key would be taken for an empty one.

Over every run they hold exactly what the phase asks for, and the machine is the builder seen
through `Registers.view`.

## Main definitions

* `Registers`, `Registers.feed` — the machine and its step.
* `Registers.view` — the builder that registers stand for.
* `Registers.Tidy` — registers are in use in their phase only.
-/

namespace InterfaceSchema

/-- What comes next, without what was read of the entry begun. -/
inductive Phase where
  | entry
  | indexKey
  | indexValue
  | memberType
  deriving DecidableEq, Repr

/-- A declaration body between two tokens. -/
structure Registers where
  root : Frame
  /-- The open objects, innermost first. -/
  frames : List Frame
  phase : Phase
  /-- The name of the member begun. -/
  pendingName : String
  /-- The key type of the index signature begun. -/
  stashedKey : Option String

namespace Registers

/-- The empty body of the declaration of a given name. -/
def start (name : String) : Registers := ⟨.ofName name, [], .entry, "", none⟩

/-- Change the innermost open object, or the root when none is open. -/
def modifyInnermost (r : Registers) (change : Frame → Frame) : Registers :=
  match r.frames with
  | [] => { r with root := change r.root }
  | f :: rest => { r with frames := change f :: rest }

/-- Read a token where an entry may begin. -/
def feedEntry (g : Grammar) (r : Registers) (token : String) : Registers :=
  match stripSuffix? ":" token with
  | some name =>
    if name = g.indexOpener then { r with phase := .indexKey }
    else if name = "" then r
    else { r with phase := .memberType, pendingName := name }
  | none =>
    if token = "\x7d" ∨ token = "\x7d;" then
      match r.frames with
      | [] => r
      | f :: rest =>
        modifyInnermost { r with frames := rest } (·.addMember f.name (.object f.interface))
    else r

/-- Read a token where the key type of an index signature is expected. -/
def feedIndexKey (r : Registers) (token : String) : Registers :=
  match stripSuffix? "]:" token with
  | some key => { r with phase := .indexValue, stashedKey := some key }
  | none => r

/-- Read a token where the value type of an index signature is expected. The key is taken out of its
register; were there none, the signature would get the empty key. -/
def feedIndexValue (r : Registers) (token : String) : Registers :=
  match stripSuffix? ";" token with
  | some value =>
    { r.modifyInnermost (·.addSignature (r.stashedKey.getD "") value) with
      phase := .entry, stashedKey := none }
  | none => r

/-- Read a token where the type of a member is expected. The name is taken out of its register. -/
def feedMemberType (r : Registers) (token : String) : Registers :=
  if token = "\x7b" then
    { r with frames := .ofName r.pendingName :: r.frames, phase := .entry, pendingName := "" }
  else match stripSuffix? ";" token with
    | some type =>
      { r.modifyInnermost (·.addMember r.pendingName (.named type)) with
        phase := .entry, pendingName := "" }
    | none => r

/-- Read one token. A token that does not fit changes nothing. -/
def feed (g : Grammar) (r : Registers) (token : String) : Registers :=
  match r.phase with
  | .entry => r.feedEntry g token
  | .indexKey => r.feedIndexKey token
  | .indexValue => r.feedIndexValue token
  | .memberType => r.feedMemberType token

/-- Read tokens in order. -/
def after (g : Grammar) (r : Registers) (tokens : List String) : Registers :=
  tokens.foldl (feed g) r

/-! ## The builder behind the registers -/

/-- What the registers expect next. -/
def expecting (r : Registers) : Expectation :=
  match r.phase with
  | .entry => .entry
  | .indexKey => .indexKey
  | .indexValue => .indexValue (r.stashedKey.getD "")
  | .memberType => .memberType r.pendingName

/-- The builder that registers stand for. -/
def view (r : Registers) : InterfaceBuilder := ⟨r.root, r.frames, r.expecting⟩

variable {g : Grammar} {r : Registers}

@[simp] theorem modifyInnermost_phase (r : Registers) (change : Frame → Frame) :
    (r.modifyInnermost change).phase = r.phase := by
  unfold modifyInnermost
  split <;> rfl

@[simp] theorem modifyInnermost_pendingName (r : Registers) (change : Frame → Frame) :
    (r.modifyInnermost change).pendingName = r.pendingName := by
  unfold modifyInnermost
  split <;> rfl

@[simp] theorem modifyInnermost_stashedKey (r : Registers) (change : Frame → Frame) :
    (r.modifyInnermost change).stashedKey = r.stashedKey := by
  unfold modifyInnermost
  split <;> rfl

theorem view_modifyInnermost (r : Registers) (change : Frame → Frame) :
    (r.modifyInnermost change).view = r.view.modifyInnermost change := by
  obtain ⟨root, frames, phase, pendingName, stashedKey⟩ := r
  cases frames <;> rfl

/-- Registers that were changed in the innermost level and in their phase stand for a builder that
was changed so. -/
theorem view_with_entry (r : Registers) (change : Frame → Frame) (name : String)
    (key : Option String) :
    view { r.modifyInnermost change with phase := .entry, pendingName := name, stashedKey := key } =
      { r.view.modifyInnermost change with expecting := .entry } := by
  rw [← view_modifyInnermost]
  rfl

theorem view_feedEntry (h : r.phase = .entry) (token : String) :
    (r.feedEntry g token).view = (r.view.step? g token).getD r.view := by
  have hview : r.view.expecting = .entry := by simp [view, expecting, h]
  simp only [InterfaceBuilder.step?, hview, InterfaceBuilder.entry?, feedEntry]
  cases hcolon : stripSuffix? ":" token with
  | some name =>
    dsimp only
    split_ifs <;> rfl
  | none =>
    dsimp only
    split_ifs
    · obtain ⟨root, frames, phase, pendingName, stashedKey⟩ := r
      cases frames with
      | nil => rfl
      | cons f rest => exact view_modifyInnermost _ _
    · rfl

/-- A step of the registers is a step of the builder they stand for, whatever the registers hold. -/
theorem view_feed (g : Grammar) (r : Registers) (token : String) :
    (r.feed g token).view = (r.view.step? g token).getD r.view := by
  cases hphase : r.phase with
  | entry =>
    rw [feed, hphase]
    exact view_feedEntry hphase token
  | indexKey =>
    have hview : r.view.expecting = .indexKey := by simp [view, expecting, hphase]
    simp only [feed, hphase, feedIndexKey, InterfaceBuilder.step?, hview]
    cases stripSuffix? "]:" token <;> rfl
  | indexValue =>
    have hview : r.view.expecting = .indexValue (r.stashedKey.getD "") := by
      simp [view, expecting, hphase]
    simp only [feed, hphase, feedIndexValue, InterfaceBuilder.step?, hview]
    cases stripSuffix? ";" token with
    | none => rfl
    | some value => exact view_with_entry r _ _ none
  | memberType =>
    have hview : r.view.expecting = .memberType r.pendingName := by simp [view, expecting, hphase]
    simp only [feed, hphase, feedMemberType, InterfaceBuilder.step?, hview,
      InterfaceBuilder.memberType?]
    split_ifs
    · rfl
    · cases stripSuffix? ";" token with
      | none => rfl
      | some type => exact view_with_entry r _ "" _

theorem view_after (g : Grammar) (r : Registers) (tokens : List String) :
    (r.after g tokens).view = r.view.after g tokens := by
  induction tokens generalizing r with
  | nil => rfl
  | cons token rest ih =>
    rw [InterfaceBuilder.after_cons, ← view_feed]
    exact ih (r.feed g token)

/-! ## What the registers hold -/

/-- Registers are in use in the phase that needs them, and in no other. That a name is there in its
phase is known of the builder. -/
structure Tidy (r : Registers) : Prop where
  stashedKey : r.stashedKey.isSome ↔ r.phase = .indexValue
  pendingName : r.phase ≠ .memberType → r.pendingName = ""

theorem tidy_start (name : String) : (start name).Tidy :=
  ⟨by simp [start], fun _ => rfl⟩

theorem Tidy.modifyInnermost (h : r.Tidy) (change : Frame → Frame) :
    (r.modifyInnermost change).Tidy :=
  ⟨by simpa using h.stashedKey, by simpa using h.pendingName⟩

theorem Tidy.feedEntry (h : r.Tidy) (hphase : r.phase = .entry) (token : String) :
    (r.feedEntry g token).Tidy := by
  obtain ⟨hkey, hname⟩ := h
  unfold Registers.feedEntry
  split
  · split_ifs
    · exact ⟨by simpa [hphase] using hkey, fun _ => hname (by simp [hphase])⟩
    · exact ⟨hkey, hname⟩
    · exact ⟨by simpa [hphase] using hkey, fun h => absurd rfl h⟩
  · split_ifs
    · split
      · exact ⟨hkey, hname⟩
      · next f rest _ => exact Tidy.modifyInnermost (r := { r with frames := rest }) ⟨hkey, hname⟩ _
    · exact ⟨hkey, hname⟩

theorem Tidy.feedIndexKey (h : r.Tidy) (hphase : r.phase = .indexKey) (token : String) :
    (r.feedIndexKey token).Tidy := by
  unfold Registers.feedIndexKey
  split
  · exact ⟨by simp, fun _ => h.pendingName (by simp [hphase])⟩
  · exact h

theorem Tidy.feedIndexValue (h : r.Tidy) (hphase : r.phase = .indexValue) (token : String) :
    (r.feedIndexValue token).Tidy := by
  unfold Registers.feedIndexValue
  split
  · exact ⟨by simp, fun _ => by simpa using h.pendingName (by simp [hphase])⟩
  · exact h

theorem Tidy.feedMemberType (h : r.Tidy) (hphase : r.phase = .memberType) (token : String) :
    (r.feedMemberType token).Tidy := by
  have hkey : r.stashedKey = none := by simpa [hphase] using h.stashedKey
  unfold Registers.feedMemberType
  split_ifs
  · exact ⟨by simp [hkey], fun _ => rfl⟩
  · split
    · exact ⟨by simp [hkey], fun _ => rfl⟩
    · exact h

/-- Every step that leaves a phase clears the register of the phase. -/
theorem Tidy.feed (h : r.Tidy) (token : String) : (r.feed g token).Tidy := by
  unfold Registers.feed
  split
  · next hphase => exact h.feedEntry hphase token
  · next hphase => exact h.feedIndexKey hphase token
  · next hphase => exact h.feedIndexValue hphase token
  · next hphase => exact h.feedMemberType hphase token

theorem Tidy.after (h : r.Tidy) (tokens : List String) : (r.after g tokens).Tidy := by
  induction tokens generalizing r with
  | nil => exact h
  | cons token rest ih => exact ih (h.feed token)

/-- After any tokens, the registers stand for the builder that has read the same tokens. There is a
key in its register exactly when the value of an index signature is expected, so none is ever
missing there, and a name that a member may have exactly when its type is expected. Open objects
have names that members may have, and the root and every open object are well formed at every level.
-/
theorem wellFormed_after_start (g : Grammar) (name : String) (tokens : List String) :
    let r := (start name).after g tokens
    r.view = ((InterfaceBuilder.start name).feedAll g tokens).1 ∧
      (r.stashedKey.isSome ↔ r.phase = .indexValue) ∧
      (r.phase = .memberType → r.pendingName ≠ "" ∧ r.pendingName ≠ g.indexOpener) ∧
      (r.phase ≠ .memberType → r.pendingName = "") ∧
      (∀ f ∈ r.frames, f.name ≠ "" ∧ f.name ≠ g.indexOpener) ∧
      ∀ f ∈ r.root :: r.frames, ∀ level ∈ f.interface.levels, level.Readable g := by
  intro r
  have hview : r.view = (InterfaceBuilder.start name).after g tokens := view_after g _ tokens
  have hformed : r.view.Formed g (fun _ => True) := by
    rw [hview]
    exact (InterfaceBuilder.formed_start g fun _ _ => trivial).after fun _ _ _ _ => trivial
  have htidy : r.Tidy := (tidy_start name).after tokens
  refine ⟨hview, htidy.stashedKey, fun hphase => ?_, htidy.pendingName, fun f hf => ?_,
    fun f hf level hlevel => (hformed.levels f hf level hlevel).readable⟩
  · have hname : g.IsName (fun _ => True) r.pendingName := by
      simpa [view, expecting, hphase, Expectation.Formed] using hformed.expecting
    exact ⟨hname.nonempty, hname.not_opener⟩
  · have hname := hformed.frames f hf
    exact ⟨hname.nonempty, hname.not_opener⟩

end Registers

end InterfaceSchema
