import InterfaceSchema.Proofs.Registers

/-!
# Ignored tokens

Every token that fits changes the builder: something else is expected after it, or an object has
been closed. So a token is reported exactly if it changes nothing, and a body from which all
reported tokens have been taken out is read in the same way, without any report on a token.

## Main definitions

* `InterfaceBuilder.accepted` — the tokens of a body that are not reported when it is read.
-/

namespace InterfaceSchema

variable {g : Grammar}

/-! ## One token -/

namespace InterfaceBuilder

variable {b next : InterfaceBuilder} {token : String}

theorem depth_of_close? (h : b.close? = some next) : next.depth + 1 = b.depth := by
  obtain ⟨root, frames, expecting⟩ := b
  cases frames with
  | nil => cases h
  | cons frame rest =>
    cases h
    rw [depth_modifyInnermost]
    rfl

/-- A token that fits changes what is expected, or it closes an object. -/
theorem changes_of_step? (h : b.step? g token = some next) :
    next.expecting ≠ b.expecting ∨ next.depth + 1 = b.depth := by
  unfold step? at h
  split at h
  · next hentry =>
    unfold entry? at h
    split at h
    · split_ifs at h <;> cases h <;> simp [hentry]
    · split_ifs at h
      exact .inr (depth_of_close? h)
  · next hkey =>
    obtain ⟨key, -, rfl⟩ := Option.map_eq_some_iff.1 h
    simp [hkey]
  · next key hvalue =>
    obtain ⟨value, -, rfl⟩ := Option.map_eq_some_iff.1 h
    simp [hvalue]
  · next name htype =>
    unfold memberType? at h
    split_ifs at h
    · cases h
      simp [htype]
    · obtain ⟨type, -, rfl⟩ := Option.map_eq_some_iff.1 h
      simp [htype]

theorem ne_of_step? (h : b.step? g token = some next) : next ≠ b := by
  rintro rfl
  rcases changes_of_step? h with hexpecting | hdepth
  · exact hexpecting rfl
  · omega

end InterfaceBuilder

namespace Registers

variable {r : Registers} {token : String}

/-- A token that does not fit leaves all registers as they are. -/
theorem feed_of_refused (h : r.view.step? g token = none) : r.feed g token = r := by
  cases hphase : r.phase with
  | entry =>
    have hview : r.view.expecting = .entry := by simp [view, expecting, hphase]
    rw [InterfaceBuilder.step?, hview] at h
    simp only [InterfaceBuilder.entry?] at h
    rw [feed, hphase]
    simp only [feedEntry]
    cases hcolon : stripSuffix? ":" token with
    | some name =>
      simp only [hcolon] at h ⊢
      split_ifs at h ⊢
      rfl
    | none =>
      simp only [hcolon] at h ⊢
      split_ifs at h ⊢
      · obtain ⟨root, frames, phase, pendingName, stashedKey⟩ := r
        cases frames with
        | nil => rfl
        | cons f rest => cases h
      · rfl
  | indexKey =>
    have hview : r.view.expecting = .indexKey := by simp [view, expecting, hphase]
    rw [InterfaceBuilder.step?, hview] at h
    rw [feed, hphase]
    simp only [feedIndexKey, Option.map_eq_none_iff.1 h]
  | indexValue =>
    have hview : r.view.expecting = .indexValue (r.stashedKey.getD "") := by
      simp [view, expecting, hphase]
    rw [InterfaceBuilder.step?, hview] at h
    rw [feed, hphase]
    simp only [feedIndexValue, Option.map_eq_none_iff.1 h]
  | memberType =>
    have hview : r.view.expecting = .memberType r.pendingName := by simp [view, expecting, hphase]
    rw [InterfaceBuilder.step?, hview] at h
    simp only [InterfaceBuilder.memberType?] at h
    rw [feed, hphase]
    simp only [feedMemberType]
    split_ifs at h ⊢
    simp only [Option.map_eq_none_iff.1 h]

/-- The tokens that leave all registers as they are are those that do not fit. -/
theorem feed_eq_self_iff : r.feed g token = r ↔ r.view.step? g token = none := by
  refine ⟨fun hsame => ?_, feed_of_refused⟩
  cases hstep : r.view.step? g token with
  | none => rfl
  | some next =>
    have hview := view_feed g r token
    rw [hsame, hstep, Option.getD_some] at hview
    exact absurd hview.symm (InterfaceBuilder.ne_of_step? hstep)

end Registers

/-! ## Runs -/

namespace InterfaceBuilder

/-- The tokens on which nothing is reported when all of them are read in order. -/
def accepted (g : Grammar) (b : InterfaceBuilder) : List String → List String
  | [] => []
  | token :: rest =>
    let (next, events) := b.feed g token
    if events.isEmpty then token :: next.accepted g rest else next.accepted g rest

variable {b next : InterfaceBuilder} {token : String}

theorem accepted_cons_of_step (h : b.step? g token = some next) (rest : List String) :
    b.accepted g (token :: rest) = token :: next.accepted g rest := by
  simp [accepted, feed, h]

theorem accepted_cons_of_refused (h : b.step? g token = none) (rest : List String) :
    b.accepted g (token :: rest) = b.accepted g rest := by
  simp [accepted, feed, h]

theorem sublist_accepted (g : Grammar) (b : InterfaceBuilder) (tokens : List String) :
    (b.accepted g tokens).Sublist tokens := by
  induction tokens generalizing b with
  | nil => exact .slnil
  | cons token rest ih =>
    cases hstep : b.step? g token with
    | none =>
      rw [accepted_cons_of_refused hstep]
      exact (ih b).cons token
    | some next =>
      rw [accepted_cons_of_step hstep]
      exact (ih next).cons_cons token

/-- Without the tokens that are reported, the same is read and nothing is reported. -/
theorem feedAll_accepted (g : Grammar) (b : InterfaceBuilder) (tokens : List String) :
    b.feedAll g (b.accepted g tokens) = (b.after g tokens, []) := by
  induction tokens generalizing b with
  | nil => rfl
  | cons token rest ih =>
    cases hstep : b.step? g token with
    | none => rw [accepted_cons_of_refused hstep, after_cons_of_refused hstep, ih]
    | some next =>
      rw [accepted_cons_of_step hstep, after_cons_of_step hstep, feedAll, feed, hstep]
      simp [ih]

/-- All reports of a run are on the tokens that do not fit, and there is one for each. -/
theorem length_accepted_add (g : Grammar) (b : InterfaceBuilder) (tokens : List String) :
    (b.accepted g tokens).length + (b.feedAll g tokens).2.length = tokens.length := by
  induction tokens generalizing b with
  | nil => rfl
  | cons token rest ih =>
    cases hstep : b.step? g token with
    | none =>
      have := ih b
      rw [accepted_cons_of_refused hstep, feedAll, feed, hstep]
      simp only [List.length_append, List.length_cons, List.length_nil]
      omega
    | some next =>
      have := ih next
      rw [accepted_cons_of_step hstep, feedAll, feed, hstep]
      simp only [List.nil_append, List.length_cons]
      omega

/-- What is reported at the end of a body is not about tokens. -/
theorem ignoredToken_not_mem_finish (b : InterfaceBuilder) (name : String)
    (expecting : Expectation) (token : String) :
    .ignoredToken name expecting token ∉ b.finish.2 := by
  unfold finish
  split_ifs <;> simp

end InterfaceBuilder

theorem Registers.after_accepted (g : Grammar) (r : Registers) (tokens : List String) :
    r.after g (r.view.accepted g tokens) = r.after g tokens := by
  induction tokens generalizing r with
  | nil => rfl
  | cons token rest ih =>
    have hcons (more : List String) :
        r.after g (token :: more) = (r.feed g token).after g more := rfl
    have hview := view_feed g r token
    cases hstep : r.view.step? g token with
    | none =>
      rw [InterfaceBuilder.accepted_cons_of_refused hstep, hcons, feed_of_refused hstep, ih]
    | some next =>
      rw [hstep, Option.getD_some] at hview
      rw [InterfaceBuilder.accepted_cons_of_step hstep, hcons, hcons, ← hview, ih]

/-- After any tokens, one more is reported, with what was expected, if it leaves the registers as
they are, and nothing is reported if it does not. Taking out the tokens of a body that are reported,
one for each report, leads to the same registers and to the same interface without any such report.
-/
theorem reports_iff_unchanged (g : Grammar) (d : Declaration) :
    let b := (InterfaceBuilder.start d.name).after g d.body
    let r := (Registers.start d.name).after g d.body
    let kept := (InterfaceBuilder.start d.name).accepted g d.body
    r.view = b ∧
      (∀ token, ((b.feed g token).1 = b ↔ r.feed g token = r) ∧
        ((b.feed g token).2 = [.ignoredToken b.root.name b.expecting token] ↔
          r.feed g token = r) ∧
        ((b.feed g token).2 = [] ↔ r.feed g token ≠ r)) ∧
      kept.Sublist d.body ∧
      kept.length + ((InterfaceBuilder.start d.name).feedAll g d.body).2.length = d.body.length ∧
      (InterfaceBuilder.start d.name).feedAll g kept = (b, []) ∧
      (Registers.start d.name).after g kept = r ∧
      (Declaration.interface g { d with body := kept }).1 = (d.interface g).1 ∧
      ∀ name expecting token, .ignoredToken name expecting token ∉
        (Declaration.interface g { d with body := kept }).2 := by
  intro b r kept
  have hview : r.view = b := Registers.view_after g _ d.body
  have hkept : (InterfaceBuilder.start d.name).feedAll g kept = (b, []) :=
    InterfaceBuilder.feedAll_accepted g _ d.body
  have hinterface : Declaration.interface g { d with body := kept } = b.finish := by
    simp only [Declaration.interface, hkept, List.nil_append]
  refine ⟨hview, fun token => ?_, InterfaceBuilder.sublist_accepted g _ d.body,
    InterfaceBuilder.length_accepted_add g _ d.body, hkept,
    Registers.after_accepted g (Registers.start d.name) d.body, ?_, ?_⟩
  · rw [ne_eq, Registers.feed_eq_self_iff, hview, InterfaceBuilder.feed]
    cases hstep : b.step? g token with
    | none => simp
    | some next => simp [InterfaceBuilder.ne_of_step? hstep]
  · rw [hinterface]
    rfl
  · rw [hinterface]
    exact b.ignoredToken_not_mem_finish

/-- A closing brace, a name without a type and a colon without a name are taken out. -/
example : (InterfaceBuilder.start "A").accepted {}
    ["\x7d", "a:", "oops", "b;", ":", "[key:", "c]:", "d;"] =
      ["a:", "b;", "[key:", "c]:", "d;"] := by
  decide

end InterfaceSchema
