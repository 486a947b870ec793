import InterfaceSchema.Proofs.Feeding
import Mathlib.Data.List.Infix

/-!
# The stack of open levels

What one token does to the levels of a builder, from the root to the innermost open object. A
closing token takes the innermost level away and puts it into the one beneath. Any other token
changes the innermost level, or opens one on top. All further levels are left alone, and what
becomes of a level that stays open is an extension of what it was. So a run changes nothing beneath
the least depth that it reaches.

## Main definitions

* `Frame.Grows` — what may become of a level that stays open.
* `InterfaceBuilder.levels` — the root and the open objects.
* `InterfaceBuilder.Closes` — the tokens that close the innermost open object.
-/

namespace InterfaceSchema

/-- What may become of a level that stays open: members and index signatures are added behind the
others, and a member that is there may be replaced where it stands. -/
structure Frame.Grows (f f' : Frame) : Prop where
  name : f'.name = f.name
  keys : f.members.keys <+: f'.members.keys
  signatures : f.interface.signatures <+: f'.interface.signatures

namespace Frame

theorem Grows.refl (f : Frame) : f.Grows f :=
  ⟨rfl, List.prefix_rfl, List.prefix_rfl⟩

theorem grows_addMember (f : Frame) (name : String) (type : TypeExpr) :
    f.Grows (f.addMember name type) := by
  refine ⟨rfl, ?_, List.prefix_rfl⟩
  rw [addMember, FieldMap.keys_insert]
  split_ifs
  · exact List.prefix_rfl
  · exact List.prefix_append _ _

theorem grows_addSignature (f : Frame) (key value : String) :
    f.Grows (f.addSignature key value) := by
  refine ⟨rfl, List.prefix_rfl, ?_⟩
  rw [addSignature, interface, interface, List.reverse_cons]
  exact List.prefix_append _ _

/-- Levels that agree up to one that has grown, above which either there were none or there are
none left. -/
theorem Grows.of_getElem? {f f' : Frame} (h : f.Grows f') {outer more more' : List Frame}
    (hmore : more = [] ∨ more' = []) {k : Nat} {x y : Frame}
    (hx : (outer ++ f :: more)[k]? = some x) (hy : (outer ++ f' :: more')[k]? = some y) :
    x.Grows y := by
  induction outer generalizing k with
  | nil =>
    cases k with
    | zero =>
      cases hx
      cases hy
      exact h
    | succ k => rcases hmore with rfl | rfl <;> simp at hx hy
  | cons level outer ih =>
    cases k with
    | zero =>
      cases hx
      cases hy
      exact .refl _
    | succ k => exact ih (by simpa using hx) (by simpa using hy)

end Frame

namespace InterfaceBuilder

variable {g : Grammar} {b next : InterfaceBuilder} {token : String}

/-- The levels that are open, by their depth: the root, and then the open objects. -/
def levels (b : InterfaceBuilder) : List Frame :=
  b.root :: b.frames.reverse

/-- A token that closes the innermost open object. -/
def Closes (b : InterfaceBuilder) (token : String) : Prop :=
  b.expecting = .entry ∧ b.frames ≠ [] ∧ (token = "\x7d" ∨ token = "\x7d;")

instance (b : InterfaceBuilder) (token : String) : Decidable (b.Closes token) :=
  inferInstanceAs (Decidable (_ ∧ _ ∧ (_ ∨ _)))

@[simp] theorem length_levels (b : InterfaceBuilder) : b.levels.length = b.depth + 1 := by
  simp [levels, depth]

theorem depth_of_levels {outer more : List Frame} (h : b.levels = outer ++ more) :
    b.depth + 1 = outer.length + more.length := by
  rw [← length_levels, h, List.length_append]

theorem levels_push (b : InterfaceBuilder) (f : Frame) (e : Expectation) :
    levels { b with frames := f :: b.frames, expecting := e } = b.levels ++ [f] := by
  simp [levels]

/-! ## The innermost level -/

theorem exists_levels (b : InterfaceBuilder) : ∃ outer, b.levels = outer ++ [b.innermost] ∧
    ∀ change, (b.modifyInnermost change).levels = outer ++ [change b.innermost] := by
  obtain ⟨root, frames, expecting⟩ := b
  cases frames with
  | nil => exact ⟨[], rfl, fun _ => rfl⟩
  | cons f rest =>
    refine ⟨root :: rest.reverse, ?_, fun change => ?_⟩
    · simp [levels, innermost]
    · simp [levels, innermost, modifyInnermost]

theorem levels_modifyInnermost {change : Frame → Frame} (h : ∀ f : Frame, f.Grows (change f))
    (e : Expectation) : ∃ outer f f', b.levels = outer ++ [f] ∧
      levels { b.modifyInnermost change with expecting := e } = outer ++ [f'] ∧ f.Grows f' := by
  obtain ⟨outer, hlevels, hmodified⟩ := exists_levels b
  exact ⟨outer, _, _, hlevels, hmodified change, h _⟩

theorem levels_with_expecting (b : InterfaceBuilder) (e : Expectation) :
    ∃ outer f f', b.levels = outer ++ [f] ∧
      levels { b with expecting := e } = outer ++ [f'] ∧ f.Grows f' := by
  obtain ⟨outer, hlevels, -⟩ := exists_levels b
  exact ⟨outer, _, _, hlevels, hlevels, .refl _⟩

/-- Closing an object changes the level beneath it only. -/
theorem levels_close (h : b.close? = some next) : ∃ outer below inner,
    b.levels = outer ++ [below, inner] ∧
      next.levels = outer ++ [below.addMember inner.name (.object inner.interface)] := by
  obtain ⟨root, frames, expecting⟩ := b
  cases frames with
  | nil => cases h
  | cons f rest =>
    obtain rfl := Option.some.inj h
    obtain ⟨outer, hlevels, hmodified⟩ := exists_levels ⟨root, rest, expecting⟩
    refine ⟨outer, _, f, ?_, hmodified _⟩
    rw [List.append_cons, ← hlevels]
    exact levels_push ⟨root, rest, expecting⟩ f expecting

/-! ## One token -/

/-- A token that fits and closes nothing changes the innermost level, or opens one on top. -/
theorem levels_step (h : b.step? g token = some next) (hclose : ¬b.Closes token) :
    (∃ outer f f', b.levels = outer ++ [f] ∧ next.levels = outer ++ [f'] ∧ f.Grows f') ∨
      ∃ name, next.levels = b.levels ++ [.ofName name] := by
  unfold step? at h
  split at h
  · next hentry =>
    unfold entry? at h
    split at h
    · split_ifs at h <;> cases h <;> exact .inl (levels_with_expecting b _)
    · split_ifs at h with hbrace
      have hframes : b.frames ≠ [] := by
        intro hframes
        simp [close?, hframes] at h
      exact absurd ⟨hentry, hframes, hbrace⟩ hclose
  · obtain ⟨key, -, rfl⟩ := Option.map_eq_some_iff.1 h
    exact .inl (levels_with_expecting b _)
  · obtain ⟨value, -, rfl⟩ := Option.map_eq_some_iff.1 h
    exact .inl (levels_modifyInnermost (fun f => f.grows_addSignature _ value) _)
  · next name _ =>
    unfold memberType? at h
    split_ifs at h
    · cases h
      exact .inr ⟨name, levels_push b _ _⟩
    · obtain ⟨type, -, rfl⟩ := Option.map_eq_some_iff.1 h
      exact .inl (levels_modifyInnermost (fun f => f.grows_addMember name _) _)

theorem feed_of_closes (g : Grammar) (h : b.Closes token) :
    b.feed g token = (b.closeWith b.innermost.interface, []) := by
  obtain ⟨hentry, hframes, htoken⟩ := h
  simp only [feed, step?_closer hentry hframes htoken]

theorem levels_feed_of_closes (g : Grammar) (h : b.Closes token) : ∃ outer below inner,
    b.levels = outer ++ [below, inner] ∧ (b.feed g token).1.levels =
      outer ++ [below.addMember inner.name (.object inner.interface)] := by
  rw [feed_of_closes g h]
  exact levels_close (close?_eq b h.2.1)

theorem levels_feed_of_not_closes (g : Grammar) (h : ¬b.Closes token) :
    (∃ outer f f', b.levels = outer ++ [f] ∧ (b.feed g token).1.levels = outer ++ [f'] ∧
      f.Grows f') ∨ ∃ name, (b.feed g token).1.levels = b.levels ++ [.ofName name] := by
  unfold feed
  cases hstep : b.step? g token with
  | none => exact .inl (levels_with_expecting b b.expecting)
  | some next => exact levels_step hstep h

theorem depth_feed_of_closes (g : Grammar) (h : b.Closes token) :
    (b.feed g token).1.depth + 1 = b.depth := by
  obtain ⟨outer, below, inner, hlevels, hnext⟩ := levels_feed_of_closes g h
  have hdepth : b.depth + 1 = outer.length + 2 := depth_of_levels hlevels
  have hdepth' : (b.feed g token).1.depth + 1 = outer.length + 1 := depth_of_levels hnext
  omega

theorem depth_feed_of_not_closes (g : Grammar) (h : ¬b.Closes token) :
    b.depth ≤ (b.feed g token).1.depth ∧ (b.feed g token).1.depth ≤ b.depth + 1 := by
  rcases levels_feed_of_not_closes g h with ⟨outer, f, f', hlevels, hnext, -⟩ | ⟨name, hnext⟩
  · have hdepth : b.depth + 1 = outer.length + 1 := depth_of_levels hlevels
    have hdepth' : (b.feed g token).1.depth + 1 = outer.length + 1 := depth_of_levels hnext
    omega
  · have hdepth : (b.feed g token).1.depth + 1 = b.levels.length + 1 := depth_of_levels hnext
    rw [length_levels] at hdepth
    omega

theorem depth_feed (g : Grammar) (b : InterfaceBuilder) (token : String) :
    b.depth ≤ (b.feed g token).1.depth + 1 ∧ (b.feed g token).1.depth ≤ b.depth + 1 := by
  by_cases hclose : b.Closes token
  · have := depth_feed_of_closes g hclose
    omega
  · have := depth_feed_of_not_closes g hclose
    omega

/-- The tokens that take a level away are the ones that close an object. -/
theorem closes_iff_depth_feed (g : Grammar) :
    b.Closes token ↔ (b.feed g token).1.depth + 1 = b.depth := by
  constructor
  · exact depth_feed_of_closes g
  · intro hdepth
    by_contra hclose
    have := depth_feed_of_not_closes g hclose
    omega

/-- A level that is open before and after a token has grown. -/
theorem grows_feed (g : Grammar) (b : InterfaceBuilder) (token : String) {k : Nat} {f f' : Frame}
    (hf : b.levels[k]? = some f) (hf' : (b.feed g token).1.levels[k]? = some f') : f.Grows f' := by
  by_cases hclose : b.Closes token
  · obtain ⟨outer, below, inner, hlevels, hnext⟩ := levels_feed_of_closes g hclose
    rw [hlevels] at hf
    rw [hnext] at hf'
    exact (below.grows_addMember inner.name _).of_getElem? (.inr rfl) hf hf'
  · rcases levels_feed_of_not_closes g hclose with
      ⟨outer, old, new, hlevels, hnext, h⟩ | ⟨name, hnext⟩
    · rw [hlevels] at hf
      rw [hnext] at hf'
      exact h.of_getElem? (.inl rfl) hf hf'
    · obtain ⟨outer, hlevels, -⟩ := exists_levels b
      rw [hlevels] at hf hnext
      rw [hnext, List.append_assoc] at hf'
      exact (Frame.Grows.refl _).of_getElem? (.inl rfl) hf hf'

/-- The levels beneath the innermost one, as it is before a token and as it is behind it, are not
touched. -/
theorem take_levels_feed (g : Grammar) (token : String) {k : Nat} (hb : k < b.depth)
    (hnext : k < (b.feed g token).1.depth) :
    (b.feed g token).1.levels.take (k + 1) = b.levels.take (k + 1) := by
  have htake : ∀ {outer more : List Frame}, k + 1 ≤ outer.length →
      (outer ++ more).take (k + 1) = outer.take (k + 1) := List.take_append_of_le_length
  by_cases hclose : b.Closes token
  · obtain ⟨outer, below, inner, hlevels, hlevels'⟩ := levels_feed_of_closes g hclose
    have hdepth : (b.feed g token).1.depth + 1 = outer.length + 1 := depth_of_levels hlevels'
    rw [hlevels, hlevels', htake (by omega), htake (by omega)]
  · rcases levels_feed_of_not_closes g hclose with
      ⟨outer, f, f', hlevels, hlevels', -⟩ | ⟨name, hlevels'⟩
    · have hdepth : b.depth + 1 = outer.length + 1 := depth_of_levels hlevels
      rw [hlevels, hlevels', htake (by omega), htake (by omega)]
    · have hlength := length_levels b
      rw [hlevels', htake (by omega)]

/-! ## Runs -/

/-- While the builder stays above a depth, nothing changes up to that depth. -/
theorem take_levels_after (g : Grammar) {tokens : List String} {k : Nat}
    (h : ∀ front, front <+: tokens → k < (b.after g front).depth) :
    (b.after g tokens).levels.take (k + 1) = b.levels.take (k + 1) := by
  induction tokens generalizing b with
  | nil => rfl
  | cons token rest ih =>
    have hcons : ∀ more, b.after g (token :: more) = (b.feed g token).1.after g more := by
      intro more
      rfl
    have hb : k < b.depth := h [] List.nil_prefix
    have hnext : k < (b.feed g token).1.depth := h [token] (by simp)
    rw [hcons, ih, take_levels_feed g token hb hnext]
    intro front hfront
    rw [← hcons]
    exact h (token :: front) (by simpa using hfront)

theorem root_after (g : Grammar) {tokens : List String}
    (h : ∀ front, front <+: tokens → 1 ≤ (b.after g front).depth) :
    (b.after g tokens).root = b.root := by
  have hlevels : (b.after g tokens).levels.take 1 = b.levels.take 1 := take_levels_after g h
  simpa [levels] using hlevels

/-- One token changes the depth of a builder by one at most. A token that closes the innermost open
object takes exactly this level away and puts it into the one beneath, under its own name; these
are the tokens that make the builder less deep. Any other token leaves all levels except the
innermost one as they are, and may open one on top. In every level that stays open, names of
members and index signatures are only added, behind the others. So the root stays the same as long
as an object is open. -/
theorem feed_levels (g : Grammar) (b : InterfaceBuilder) :
    (∀ token, let next := (b.feed g token).1
      (b.depth ≤ next.depth + 1 ∧ next.depth ≤ b.depth + 1) ∧
      (b.Closes token ↔ next.depth + 1 = b.depth) ∧
      (¬b.Closes token →
        (∃ outer f f', b.levels = outer ++ [f] ∧ next.levels = outer ++ [f'] ∧ f.Grows f') ∨
          ∃ name, next.levels = b.levels ++ [.ofName name]) ∧
      (b.Closes token → next.expecting = b.expecting ∧ ∃ outer below inner,
        b.levels = outer ++ [below, inner] ∧
          next.levels = outer ++ [below.addMember inner.name (.object inner.interface)]) ∧
      ∀ (k : Nat) (f f' : Frame), b.levels[k]? = some f → next.levels[k]? = some f' →
        f.name = f'.name ∧ f.members.keys <+: f'.members.keys ∧
          f.interface.signatures <+: f'.interface.signatures) ∧
    ∀ tokens, (∀ front, front <+: tokens → 1 ≤ (b.after g front).depth) →
      (b.after g tokens).root = b.root := by
  refine ⟨fun token => ?_, fun tokens h => root_after g h⟩
  intro next
  refine ⟨depth_feed g b token, closes_iff_depth_feed g, levels_feed_of_not_closes g,
    fun hclose => ⟨?_, ?_⟩, ?_⟩
  · simp [next, feed_of_closes g hclose, closeWith]
  · exact levels_feed_of_closes g hclose
  · intro k f f' hf hf'
    obtain ⟨hname, hkeys, hsignatures⟩ := grows_feed g b token hf hf'
    exact ⟨hname.symm, hkeys, hsignatures⟩

/-- An object that is closed becomes a member of the root, and the members read in it have left the
root as it was. -/
theorem feed_levels_sibling :
    let b := (start "A").after {} ["b:", "\x7b"]
    let last := b.after {} ["c:", "number;", "d:", "string;"]
    last.root = b.root ∧ last.Closes "\x7d;" ∧ ∃ outer below inner,
      last.levels = outer ++ [below, inner] ∧ (last.feed {} "\x7d;").1.levels =
        outer ++ [below.addMember inner.name (.object inner.interface)] := by
  intro b last
  have hcloses : last.Closes "\x7d;" := by decide
  have hdepth : ∀ front ∈ ["c:", "number;", "d:", "string;"].inits,
      1 ≤ (b.after {} front).depth := by decide
  obtain ⟨-, hroot⟩ := feed_levels {} b
  obtain ⟨hstep, -⟩ := feed_levels {} last
  obtain ⟨-, -, -, hclosing, -⟩ := hstep "\x7d;"
  refine ⟨hroot _ fun front hfront => ?_, hcloses, (hclosing hcloses).2⟩
  exact hdepth front ((List.mem_inits _ _).2 hfront)

end InterfaceBuilder

end InterfaceSchema
