import InterfaceSchema.Proofs.Feeding

/-!
# Recursive descent

A second way to read a declaration body, without a builder: each level is read by a call of its own,
which goes on until the closing brace of its level, and every wait for a token is a search for the
first one that fits. A level that is not closed is not seen by the level around it.

The builder keeps its open levels in a list instead. Both ways lead to the same interface, whatever
the tokens are.

## Main definitions

* `seek` — the first token that fits, and what stands behind it.
* `readLevel` — reading the entries of one level.
* `readBody` — the interface of a given name with the given body.
-/

namespace InterfaceSchema

namespace Interface

/-- Add or replace a member. -/
def addMember (i : Interface) (name : String) (type : TypeExpr) : Interface :=
  { i with members := i.members.insert name type }

/-- Add an index signature behind the others. -/
def addSignature (i : Interface) (key value : String) : Interface :=
  { i with signatures := i.signatures ++ [⟨key, .named value⟩] }

end Interface

/-- The first token that fits, as what it was taken for, and the tokens behind it. -/
def seek {α : Type} (fit : String → Option α) : List String → Option (α × List String)
  | [] => none
  | token :: rest =>
    match fit token with
    | some a => some (a, rest)
    | none => seek fit rest

theorem length_of_seek {α : Type} {fit : String → Option α} {tokens rest : List String} {a : α}
    (h : seek fit tokens = some (a, rest)) : rest.length < tokens.length := by
  fun_induction seek fit tokens with
  | case1 => cases h
  | case2 token behind a' hfit =>
    cases h
    simp
  | case3 token behind hfit ih =>
    have := ih h
    simp only [List.length_cons]
    omega

/-- How the reading of a level ends, if there are `n` tokens. -/
inductive LevelEnd (n : Nat) where
  /-- With a closing brace, in front of the tokens left. -/
  | closed (level : Interface) (rest : List String) (shorter : rest.length < n)
  /-- With the last token, inside so many objects that were begun below the level. -/
  | exhausted (level : Interface) (unclosed : Nat)

/-- The same end among more tokens. -/
def LevelEnd.widen {m n : Nat} (h : m ≤ n) : LevelEnd m → LevelEnd n
  | .closed level rest shorter => .closed level rest (shorter.trans_le h)
  | .exhausted level unclosed => .exhausted level unclosed

/-- Read the entries of a level, given what has been read of it. Only a nested level can be
closed. -/
def readLevel (g : Grammar) (nested : Bool) (level : Interface) :
    (tokens : List String) → LevelEnd tokens.length
  | [] => .exhausted level 0
  | token :: rest =>
    match stripSuffix? ":" token with
    | none =>
      if nested ∧ (token = "\x7d" ∨ token = "\x7d;") then .closed level rest (by simp)
      else (readLevel g nested level rest).widen (by simp)
    | some name =>
      if name = g.indexOpener then
        match hk : seek (stripSuffix? "]:") rest with
        | none => .exhausted level 0
        | some (key, behindKey) =>
          match hv : seek (stripSuffix? ";") behindKey with
          | none => .exhausted level 0
          | some (value, behind) =>
            have := length_of_seek hk
            have := length_of_seek hv
            (readLevel g nested (level.addSignature key value) behind).widen
              (by simp only [List.length_cons]; omega)
      else if name = "" then (readLevel g nested level rest).widen (by simp)
      else
        match ht : seek typeStart? rest with
        | none => .exhausted level 0
        | some (some type, behind) =>
          have := length_of_seek ht
          (readLevel g nested (level.addMember name (.named type)) behind).widen
            (by simp only [List.length_cons]; omega)
        | some (none, body) =>
          have := length_of_seek ht
          match readLevel g true (.ofName name) body with
          | .exhausted _ unclosed => .exhausted level (unclosed + 1)
          | .closed inner behind shorter =>
            (readLevel g nested (level.addMember name (.object inner)) behind).widen
              (by simp only [List.length_cons]; omega)
termination_by tokens => tokens.length

/-- The interface of a given name with the given body, and the number of objects in it that are not
closed. The outermost level has no closing brace. -/
def readBody (g : Grammar) (name : String) (tokens : List String) : Interface × Nat :=
  match readLevel g false (.ofName name) tokens with
  | .closed level _ _ => (level, 0)
  | .exhausted level unclosed => (level, unclosed)

/-! ## Waiting -/

@[simp] theorem Frame.interface_ofName (name : String) :
    (Frame.ofName name).interface = .ofName name := rfl

@[simp] theorem Frame.interface_addMember (f : Frame) (name : String) (type : TypeExpr) :
    (f.addMember name type).interface = f.interface.addMember name type := rfl

@[simp] theorem Frame.interface_addSignature (f : Frame) (key value : String) :
    (f.addSignature key value).interface = f.interface.addSignature key value := by
  simp [Frame.interface, Frame.addSignature, Interface.addSignature]

namespace InterfaceBuilder

variable {g : Grammar} {b : InterfaceBuilder}

section Waits

variable {α : Type} {fit : String → Option α} {next : α → InterfaceBuilder}
  (hstep : ∀ token, b.step? g token = (fit token).map next)
include hstep

/-- A builder that waits for a token stays as it is while none fits. -/
theorem after_of_seek_eq_none {tokens : List String} (h : seek fit tokens = none) :
    b.after g tokens = b := by
  fun_induction seek fit tokens with
  | case1 => rfl
  | case2 => cases h
  | case3 token rest hfit ih =>
    rw [after_cons_of_refused (by rw [hstep, hfit]; rfl), ih h]

/-- A builder that waits for a token passes over all that do not fit. -/
theorem after_of_seek {tokens rest : List String} {a : α} (h : seek fit tokens = some (a, rest)) :
    b.after g tokens = (next a).after g rest := by
  fun_induction seek fit tokens with
  | case1 => cases h
  | case2 token behind a' hfit =>
    cases h
    exact after_cons_of_step (by rw [hstep, hfit]; rfl) _
  | case3 token behind hfit ih =>
    rw [after_cons_of_refused (by rw [hstep, hfit]; rfl), ih h]

end Waits

end InterfaceBuilder

/-! ## Agreement -/

open InterfaceBuilder

/-- What the end of reading a level says of a builder on this level in front of the same tokens. A
closed level becomes a member of the level around it; if the tokens do not suffice, they count only
where no object is open, and the objects begun stay open. -/
def LevelEnd.Describes (g : Grammar) (b : InterfaceBuilder) (tokens : List String) {n : Nat} :
    LevelEnd n → Prop
  | .closed level rest _ => b.frames ≠ [] ∧ b.after g tokens = (b.closeWith level).after g rest
  | .exhausted level unclosed => (b.after g tokens).depth = b.depth + unclosed ∧
    if b.frames = [] then (b.after g tokens).root.interface = level
    else (b.after g tokens).root = b.root

section

variable {g : Grammar} {b : InterfaceBuilder} {tokens rest : List String} {m n : Nat}

@[simp] theorem LevelEnd.describes_widen (h : m ≤ n) (e : LevelEnd m) :
    (e.widen h).Describes g b tokens ↔ e.Describes g b tokens := by
  cases e <;> rfl

/-- Tokens that add to the innermost level lead to what is said of the rest. -/
theorem LevelEnd.Describes.of_modifyInnermost {f : Frame → Frame} {e : LevelEnd n}
    (h : e.Describes g (b.modifyInnermost f) rest)
    (hf : ∀ frame, (f frame).name = frame.name)
    (hrun : b.after g tokens = (b.modifyInnermost f).after g rest) :
    e.Describes g b tokens := by
  cases e with
  | closed level behind shorter =>
    obtain ⟨hne, heq⟩ := h
    rw [closeWith_modifyInnermost b hf level hne] at heq
    exact ⟨by simpa using hne, hrun.trans heq⟩
  | exhausted level unclosed =>
    simp only [Describes, modifyInnermost_frames_eq_nil, depth_modifyInnermost, hrun] at h ⊢
    by_cases hb : b.frames = []
    · simpa [hb] using h
    · simpa [hb, modifyInnermost_root b f hb] using h

theorem LevelEnd.Describes.of_after_eq {e : LevelEnd n} (h : e.Describes g b rest)
    (hrun : b.after g tokens = b.after g rest) : e.Describes g b tokens := by
  cases e with
  | closed level behind shorter => exact ⟨h.1, hrun.trans h.2⟩
  | exhausted level unclosed => simpa only [Describes, hrun] using h

/-- When the tokens end inside an entry of a level, it is as it was. -/
theorem LevelEnd.describes_exhausted {level : Interface} (hb : b.innermost.interface = level)
    {unclosed : Nat} (hroot : (b.after g tokens).root = b.root)
    (hdepth : (b.after g tokens).depth = b.depth + unclosed) :
    (LevelEnd.exhausted level unclosed : LevelEnd n).Describes g b tokens := by
  refine ⟨hdepth, ?_⟩
  rw [hroot]
  by_cases h : b.frames = []
  · rw [if_pos h, ← hb, innermost, h]
    rfl
  · simp [h]

end

section

variable {g : Grammar} {b : InterfaceBuilder} (he : b.expecting = .entry) {token : String}
include he

theorem after_opener (hcolon : stripSuffix? ":" token = some g.indexOpener) (rest : List String) :
    b.after g (token :: rest) = after g { b with expecting := .indexKey } rest := by
  rw [stripSuffix?_eq_some_iff.1 hcolon]
  exact after_cons_of_step (step?_opener he) rest

theorem after_name {name : String} (hcolon : stripSuffix? ":" token = some name)
    (hopener : name ≠ g.indexOpener) (hne : name ≠ "") (rest : List String) :
    b.after g (token :: rest) = after g { b with expecting := .memberType name } rest := by
  rw [stripSuffix?_eq_some_iff.1 hcolon]
  exact after_cons_of_step (step?_name he hopener hne) rest

end

/-- A builder and a recursive reader that stand at the same level come to the same end. The
induction is on the calls of the reader. -/
theorem readLevel_describes (g : Grammar) (nested : Bool) (level : Interface)
    (tokens : List String) (b : InterfaceBuilder) (he : b.expecting = .entry)
    (hl : b.innermost.interface = level) (hn : nested = true ↔ b.frames ≠ []) :
    (readLevel g nested level tokens).Describes g b tokens := by
  fun_induction readLevel g nested level tokens generalizing b with
  | case1 nested level => exact LevelEnd.describes_exhausted hl rfl rfl
  | case2 nested level token rest hcolon hclose =>
    have hb := hn.1 hclose.1
    refine ⟨hb, ?_⟩
    rw [after_cons_of_step (step?_closer he hb hclose.2), hl]
  | case3 nested level token rest hcolon hclose ih =>
    rw [hn] at hclose
    rw [LevelEnd.describes_widen]
    exact (ih b he hl hn).of_after_eq (after_cons_of_refused (step?_other he hcolon hclose) rest)
  | case4 nested level token rest hk hcolon =>
    have hrun : b.after g (token :: rest) = { b with expecting := .indexKey } := by
      rw [after_opener he hcolon, after_of_seek_eq_none step?_indexKey hk]
    exact LevelEnd.describes_exhausted hl (by rw [hrun]) (by rw [hrun]; rfl)
  | case5 nested level token rest key behindKey hk hv hcolon =>
    have hrun : b.after g (token :: rest) = { b with expecting := .indexValue key } := by
      rw [after_opener he hcolon, after_of_seek step?_indexKey hk,
        after_of_seek_eq_none (step?_indexValue he key) hv]
    exact LevelEnd.describes_exhausted hl (by rw [hrun]) (by rw [hrun]; rfl)
  | case6 nested level token rest key behindKey hk value behind hv _ _ hcolon ih =>
    rw [LevelEnd.describes_widen]
    refine (ih (b.modifyInnermost (·.addSignature key value)) (by simpa using he) (by simp [hl])
      (by simpa using hn)).of_modifyInnermost (fun _ => rfl) ?_
    rw [after_opener he hcolon, after_of_seek step?_indexKey hk,
      after_of_seek (step?_indexValue he key) hv]
  | case7 nested level token rest hcolon hopener ih =>
    rw [LevelEnd.describes_widen]
    exact (ih b he hl hn).of_after_eq
      (after_cons_of_refused (step?_nameless he hcolon hopener) rest)
  | case8 nested level token rest name hcolon hopener hne ht =>
    have hrun : b.after g (token :: rest) = { b with expecting := .memberType name } := by
      rw [after_name he hcolon hopener hne, after_of_seek_eq_none (step?_memberType he name) ht]
    exact LevelEnd.describes_exhausted hl (by rw [hrun]) (by rw [hrun]; rfl)
  | case9 nested level token rest name hcolon hopener hne type behind ht _ ih =>
    rw [LevelEnd.describes_widen]
    refine (ih (b.modifyInnermost (·.addMember name (.named type))) (by simpa using he)
      (by simp [hl]) (by simpa using hn)).of_modifyInnermost (fun _ => rfl) ?_
    rw [after_name he hcolon hopener hne, after_of_seek (step?_memberType he name) ht]
    rfl
  | case10 nested level token rest name hcolon hopener hne body ht _ inner unclosed hinner ih =>
    -- the nested level is left open, and with it all levels around it but the root
    have hopen := ih { b with frames := .ofName name :: b.frames } he rfl (by simp)
    rw [hinner, LevelEnd.Describes, if_neg (by simp)] at hopen
    have hrun : b.after g (token :: rest) =
        after g { b with frames := .ofName name :: b.frames } body := by
      rw [after_name he hcolon hopener hne, after_of_seek (step?_memberType he name) ht]
      rfl
    refine LevelEnd.describes_exhausted hl (by rw [hrun, hopen.2]) ?_
    rw [hrun, hopen.1]
    simp only [depth, List.length_cons]
    omega
  | case11 nested level token rest name hcolon hopener hne body ht _ inner behind _ hinner ihb ih =>
    have hclosed := ihb { b with frames := .ofName name :: b.frames } he rfl (by simp)
    rw [hinner] at hclosed
    rw [LevelEnd.describes_widen]
    refine (ih (b.modifyInnermost (·.addMember name (.object inner))) (by simpa using he)
      (by simp [hl]) (by simpa using hn)).of_modifyInnermost (fun _ => rfl) ?_
    rw [after_name he hcolon hopener hne, after_of_seek (step?_memberType he name) ht]
    exact hclosed.2

theorem after_start_eq_readBody (g : Grammar) (name : String) (tokens : List String) :
    ((start name).after g tokens).root.interface = (readBody g name tokens).1 ∧
      ((start name).after g tokens).depth = (readBody g name tokens).2 := by
  have h := readLevel_describes g false (.ofName name) tokens (start name) rfl rfl (by simp [start])
  have hroot : (start name).frames = [] := rfl
  unfold readBody
  cases hend : readLevel g false (.ofName name) tokens with
  | closed level rest shorter =>
    rw [hend] at h
    exact absurd hroot h.1
  | exhausted level unclosed =>
    rw [hend, LevelEnd.Describes, if_pos hroot] at h
    exact ⟨h.2, by simpa [start, depth] using h.1⟩

/-- Whatever the tokens of a body are, well formed or not, the builder with its list of open objects
reads the interface that recursive descent reads, and has as many objects open at the end as calls
were not finished. -/
theorem interface_eq_readBody (g : Grammar) (keyword name : String) (tokens : List String) :
    ((start name).feedAll g tokens).1.finish.1 = (readBody g name tokens).1 ∧
      ((start name).feedAll g tokens).1.depth = (readBody g name tokens).2 ∧
      (Declaration.interface g ⟨keyword, name, tokens⟩).1 = (readBody g name tokens).1 := by
  obtain ⟨hroot, hdepth⟩ := after_start_eq_readBody g name tokens
  exact ⟨hroot, hdepth, hroot⟩

end InterfaceSchema
