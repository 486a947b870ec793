import InterfaceSchema.Proofs.Descent
import InterfaceSchema.Proofs.Levels

/-!
# What reading keeps

Whatever the tokens are, a builder stays well formed: a level has distinct names, none of them empty
or the index opener, a nested object is named by its member, and the values of index signatures are
words. None of this is checked when a level is closed. It holds because the names of open objects
and of a member begun are good names already.

The texts of all levels are pieces of tokens, so they are written in the characters of the tokens.
This is carried along, for any kind of characters.

## Main definitions

* `Grammar.IsName` — the names that members may have.
* `Interface.Formed` — what is known of a level that has been read.
* `InterfaceBuilder.Formed` — what is known of a builder between two tokens.
-/

namespace InterfaceSchema

/-- A name that a member may have, in characters of a kind. -/
structure Grammar.IsName (g : Grammar) (P : Char → Prop) (name : String) : Prop where
  nonempty : name ≠ ""
  not_opener : name ≠ g.indexOpener
  written : Written P name

/-- What is known of a level that has been read from tokens in characters of a kind. -/
structure Interface.Formed (g : Grammar) (P : Char → Prop) (i : Interface) : Prop where
  readable : i.Readable g
  written : i.WrittenIn g P

/-- What is known of the type of a member that has been read. -/
structure TypeExpr.Formed (g : Grammar) (P : Char → Prop) (key : String) (type : TypeExpr) :
    Prop where
  named : NamesObject (key, type)
  word : ∀ token ∈ type.token?, Written P token
  levels : ∀ level ∈ type.levels, level.Formed g P

/-- What is known of an entry begun. -/
def Expectation.Formed (g : Grammar) (P : Char → Prop) : Expectation → Prop
  | .entry => True
  | .indexKey => Written P g.indexOpener
  | .indexValue key => Written P g.indexOpener ∧ Written P key
  | .memberType name => g.IsName P name

/-- What is known of a builder between two tokens. -/
structure InterfaceBuilder.Formed (g : Grammar) (P : Char → Prop) (b : InterfaceBuilder) :
    Prop where
  root : Written P b.root.name
  expecting : b.expecting.Formed g P
  frames : ∀ f ∈ b.frames, g.IsName P f.name
  levels : ∀ f ∈ b.root :: b.frames, ∀ level ∈ f.interface.levels, level.Formed g P

variable {g : Grammar} {P : Char → Prop}

/-- What stands before an ending is written as the whole is. -/
theorem Written.of_stripSuffix? {ending token s : String} (h : Written P token)
    (hs : stripSuffix? ending token = some s) : Written P s := by
  rw [stripSuffix?_eq_some_iff] at hs
  intro c hc
  exact h c (by simp [hs, hc])

/-! ## Levels -/

theorem FieldMap.mem_insertEntry {V : Type} {key : String} {value : V} {e : String × V}
    {entries : List (String × V)} (h : e ∈ insertEntry key value entries) :
    e = (key, value) ∨ e ∈ entries := by
  fun_induction insertEntry key value entries with grind

/-- A member that is added or replaced brings its own levels. -/
theorem mem_memberLevels_insertEntry {key : String} {type : TypeExpr} {level : Interface}
    {entries : List (String × TypeExpr)}
    (h : level ∈ memberLevels (FieldMap.insertEntry key type entries)) :
    level ∈ type.levels ∨ level ∈ memberLevels entries := by
  fun_induction FieldMap.insertEntry key type entries with grind [memberLevels]

namespace Interface

variable {i : Interface}

/-- Nothing is wrong with a level of which nothing has been read. -/
theorem formed_ofName (g : Grammar) (P : Char → Prop) (name : String) :
    ∀ level ∈ (ofName name).levels, level.Formed g P := by
  intro level hlevel
  obtain rfl : level = ofName name := by simpa [ofName, levels_eq, memberLevels] using hlevel
  refine ⟨⟨?_, by simp [ofName], by simp [ofName], by simp [ofName]⟩, ⟨?_, by simp [ofName]⟩⟩
  · simp [ofName, FieldMap.Distinct]
  · simp [ofName, texts]

theorem mem_texts_addMember {key : String} {type : TypeExpr} {s : String}
    (h : s ∈ (i.addMember key type).texts) : s = key ∨ s ∈ type.token? ∨ s ∈ i.texts := by
  simp only [texts, addMember, FieldMap.insert, List.mem_append, List.mem_flatMap] at h ⊢
  rcases h with ⟨e, he, hs⟩ | hs
  · rcases FieldMap.mem_insertEntry he with rfl | he
    · grind
    · exact .inr (.inr (.inl ⟨e, he, hs⟩))
  · exact .inr (.inr (.inr hs))

/-- A good member keeps all levels of an interface good, whether it is new or replaces one. -/
theorem formed_addMember (h : ∀ level ∈ i.levels, level.Formed g P) {key : String}
    (hkey : g.IsName P key) {type : TypeExpr} (htype : type.Formed g P key) :
    ∀ level ∈ (i.addMember key type).levels, level.Formed g P := by
  rw [levels_eq, List.forall_mem_cons] at h ⊢
  obtain ⟨⟨hread, htexts, hopener⟩, hbelow⟩ := h
  refine ⟨⟨⟨hread.distinct.insert key type, ?_, ?_, hread.words⟩, ⟨?_, hopener⟩⟩, ?_⟩
  · intro k hk
    rw [addMember, FieldMap.keys_insert] at hk
    have := hread.keys k
    have := hkey.nonempty
    have := hkey.not_opener
    grind
  · intro e he
    rcases FieldMap.mem_insertEntry he with rfl | he
    · exact htype.named
    · exact hread.named e he
  · intro s hs
    rcases mem_texts_addMember hs with rfl | hs | hs
    · exact hkey.written
    · exact htype.word s hs
    · exact htexts s hs
  · intro level hlevel
    rcases mem_memberLevels_insertEntry hlevel with hlevel | hlevel
    · exact htype.levels level hlevel
    · exact hbelow level hlevel

theorem formed_addSignature (h : ∀ level ∈ i.levels, level.Formed g P)
    (hopener : Written P g.indexOpener) {key value : String} (hkey : Written P key)
    (hvalue : Written P value) : ∀ level ∈ (i.addSignature key value).levels, level.Formed g P := by
  rw [levels_eq, List.forall_mem_cons] at h ⊢
  obtain ⟨⟨hread, htexts, -⟩, hbelow⟩ := h
  refine ⟨⟨⟨hread.distinct, hread.keys, hread.named, ?_⟩, ⟨?_, fun _ => hopener⟩⟩, hbelow⟩
  · simp only [addSignature, List.forall_mem_append, List.forall_mem_singleton]
    exact ⟨hread.words, rfl⟩
  · simp only [texts, addSignature, List.flatMap_append, List.forall_mem_append] at htexts ⊢
    refine ⟨htexts.1, htexts.2, ?_⟩
    simpa [TypeExpr.token?] using ⟨hkey, hvalue⟩

end Interface

theorem TypeExpr.formed_named {key token : String} (h : Written P token) :
    (TypeExpr.named token).Formed g P key :=
  ⟨by simp [NamesObject, object?], by simpa [token?] using h, by simp [levels]⟩

theorem TypeExpr.formed_object {i : Interface} (h : ∀ level ∈ i.levels, level.Formed g P) :
    (TypeExpr.object i).Formed g P i.name :=
  ⟨by simp [NamesObject, object?], by simp [token?], h⟩

/-! ## Builders -/

namespace InterfaceBuilder

variable {b next : InterfaceBuilder} {token : String}

theorem formed_start (g : Grammar) {name : String} (hname : Written P name) :
    (start name).Formed g P := by
  refine ⟨hname, trivial, fun f hf => absurd hf List.not_mem_nil, ?_⟩
  exact List.forall_mem_singleton.2 (Interface.formed_ofName g P name)

/-- A change of the innermost level that keeps its name and its levels good keeps a builder
good. -/
theorem Formed.modifyInnermost (h : b.Formed g P) {change : Frame → Frame}
    (hname : ∀ f, (change f).name = f.name)
    (hlevels : ∀ f, (∀ level ∈ f.interface.levels, level.Formed g P) →
      ∀ level ∈ (change f).interface.levels, level.Formed g P) :
    (b.modifyInnermost change).Formed g P := by
  obtain ⟨root, frames, expecting⟩ := b
  obtain ⟨hname', hexpecting, hframes, hall⟩ := h
  cases frames with
  | nil =>
    have hroot : Written P (change root).name := hname root ▸ hname'
    exact ⟨hroot, hexpecting, hframes,
      List.forall_mem_singleton.2 (hlevels root (hall root List.mem_cons_self))⟩
  | cons f rest =>
    simp only [List.forall_mem_cons] at hframes hall
    obtain ⟨hroot, hf, hrest⟩ := hall
    refine ⟨hname', hexpecting, ?_, ?_⟩
    · rw [InterfaceBuilder.modifyInnermost, List.forall_mem_cons, hname f]
      exact hframes
    · rw [InterfaceBuilder.modifyInnermost, List.forall_mem_cons, List.forall_mem_cons]
      exact ⟨hroot, hlevels f hf, hrest⟩

theorem Formed.with_expecting (h : b.Formed g P) (e : Expectation) (he : e.Formed g P) :
    InterfaceBuilder.Formed g P { b with expecting := e } :=
  ⟨h.root, he, h.frames, h.levels⟩

theorem Formed.addMember (h : b.Formed g P) {key : String} (hkey : g.IsName P key)
    {type : TypeExpr} (htype : type.Formed g P key) :
    (b.modifyInnermost (·.addMember key type)).Formed g P :=
  h.modifyInnermost (fun _ => rfl) fun _ hf => Interface.formed_addMember hf hkey htype

theorem Formed.addSignature (h : b.Formed g P) (hopener : Written P g.indexOpener)
    {key value : String} (hkey : Written P key) (hvalue : Written P value) :
    (b.modifyInnermost (·.addSignature key value)).Formed g P := by
  refine h.modifyInnermost (fun _ => rfl) fun f hf => ?_
  rw [Frame.interface_addSignature]
  exact Interface.formed_addSignature hf hopener hkey hvalue

/-- Closing an object is where the names of open objects are needed: the object becomes a member
under its name. -/
theorem Formed.close (h : b.Formed g P) (hclose : b.close? = some next) : next.Formed g P := by
  obtain ⟨root, frames, expecting⟩ := b
  cases frames with
  | nil => cases hclose
  | cons f rest =>
    obtain ⟨hname, hexpecting, hframes, hall⟩ := h
    simp only [List.forall_mem_cons] at hframes hall
    obtain ⟨hroot, hf, hrest⟩ := hall
    have hbelow : InterfaceBuilder.Formed g P ⟨root, rest, expecting⟩ :=
      ⟨hname, hexpecting, hframes.2, List.forall_mem_cons.2 ⟨hroot, hrest⟩⟩
    obtain rfl := Option.some.inj hclose
    exact hbelow.addMember hframes.1 (TypeExpr.formed_object hf)

/-- Every token that fits keeps a builder good, if it is written in the characters in question. -/
theorem Formed.step (h : b.Formed g P) (ht : Written P token)
    (hstep : b.step? g token = some next) : next.Formed g P := by
  have hexpecting := h.expecting
  unfold step? at hstep
  split at hstep
  · -- where an entry may begin
    unfold entry? at hstep
    split at hstep
    · next name hcolon =>
      have hname : Written P name := ht.of_stripSuffix? hcolon
      split_ifs at hstep with hopener hempty
      · obtain rfl := Option.some.inj hstep
        exact h.with_expecting .indexKey (hopener ▸ hname : Written P g.indexOpener)
      · obtain rfl := Option.some.inj hstep
        exact h.with_expecting (.memberType name) ⟨hempty, hopener, hname⟩
    · split_ifs at hstep
      exact h.close hstep
  · next he =>
    obtain ⟨key, hkey, rfl⟩ := Option.map_eq_some_iff.1 hstep
    rw [he] at hexpecting
    exact h.with_expecting (.indexValue key) ⟨hexpecting, ht.of_stripSuffix? hkey⟩
  · next key he =>
    obtain ⟨value, hvalue, rfl⟩ := Option.map_eq_some_iff.1 hstep
    rw [he] at hexpecting
    have hadded := h.addSignature hexpecting.1 hexpecting.2 (ht.of_stripSuffix? hvalue)
    exact hadded.with_expecting .entry trivial
  · next name he =>
    rw [he] at hexpecting
    unfold memberType? at hstep
    split_ifs at hstep
    · obtain rfl := Option.some.inj hstep
      refine ⟨h.root, trivial, List.forall_mem_cons.2 ⟨hexpecting, h.frames⟩, ?_⟩
      have hroot := List.forall_mem_cons.1 h.levels
      refine List.forall_mem_cons.2 ⟨hroot.1, List.forall_mem_cons.2 ⟨?_, hroot.2⟩⟩
      exact Interface.formed_ofName g P name
    · obtain ⟨type, htype, rfl⟩ := Option.map_eq_some_iff.1 hstep
      have hnamed : (TypeExpr.named type).Formed g P name :=
        TypeExpr.formed_named (ht.of_stripSuffix? htype)
      exact (h.addMember hexpecting hnamed).with_expecting .entry trivial

/-- A builder stays good over a whole run. -/
theorem Formed.after (h : b.Formed g P) {tokens : List String}
    (ht : ∀ token ∈ tokens, Written P token) : (b.after g tokens).Formed g P := by
  induction tokens generalizing b with
  | nil => exact h
  | cons token rest ih =>
    obtain ⟨hfirst, hrest⟩ := List.forall_mem_cons.1 ht
    rw [after_cons]
    cases hstep : b.step? g token with
    | none => exact ih h hrest
    | some next => exact ih (h.step hfirst hstep) hrest

end InterfaceBuilder

end InterfaceSchema
