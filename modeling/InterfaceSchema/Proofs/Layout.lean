import InterfaceSchema.Proofs.Cutting
import InterfaceSchema.Proofs.Levels

/-!
# Laying out interfaces

Interfaces as source text. A declaration is a list of lines, and a line a list of words with single
spaces between them; how far a line is indented, and whether a semicolon stands behind the closing
brace of a nested object, is open. Blocks stand among other lines.

## Main definitions

* `Interface.bodyLines` — the lines between the braces of an interface.
* `Interface.declarationLines` — the lines of a declaration.
* `Laid` — lines that hold blocks of given interfaces.
* `Interface.Printable` — interfaces that can be written as lines of words.
* `Grammar.Separates` — grammars whose markers can be found again.
-/

namespace InterfaceSchema

/-- The line of an index signature. Only a value of one word can be written. -/
def IndexSignature.words (g : Grammar) : IndexSignature → List String
  | ⟨key, .named value⟩ => [g.indexOpener ++ ":", key ++ "]:", value ++ ";"]
  | ⟨_, .object _⟩ => []

section

-- `closer` gives the closing brace of a nested object by the names that lead to it.
variable (g : Grammar) (closer : List String → String)

mutual

/-- The lines between the braces of an object: index signatures first, then members. -/
def Interface.bodyLines (path : List String) : Interface → List (List String)
  | ⟨_, ⟨members⟩, signatures⟩ => signatures.map (·.words g) ++ memberLines path members

/-- The lines of a member of the given type. -/
def TypeExpr.lines (path : List String) (key : String) : TypeExpr → List (List String)
  | .named token => [[key ++ ":", token ++ ";"]]
  | .object inner =>
    [key ++ ":", "\x7b"] :: inner.bodyLines (path ++ [key]) ++ [[closer (path ++ [key])]]

/-- The lines of members. -/
def memberLines (path : List String) : List (String × TypeExpr) → List (List String)
  | [] => []
  | (key, type) :: rest => type.lines path key ++ memberLines path rest

end

end

/-- How a nested object may be closed. -/
def IsCloser (token : String) : Prop :=
  token = "\x7d" ∨ token = "\x7d;"

instance (token : String) : Decidable (IsCloser token) :=
  inferInstanceAs (Decidable (_ ∨ _))

/-- The lines of a declaration. -/
def Interface.declarationLines (g : Grammar) (closer : List String → String) (i : Interface) :
    List (List String) :=
  ["interface", i.name, "\x7b"] :: i.bodyLines g closer [] ++ [["\x7d"]]

/-- The same lines, each with an indentation of its own. -/
def Indented : List String → List String → Prop :=
  List.Forall₂ fun line laid => ∃ indent, Indentation indent ∧ laid = indent ++ line

/-- The block that holds the lines of a declaration. -/
def Interface.block (g : Grammar) (closer : List String → String) (i : Interface) : Block :=
  ⟨(i.declarationLines g closer).map (" ".intercalate ·)⟩

/-- The lines of a block with the markers around them. -/
def Block.marked (g : Grammar) (b : Block) : List String :=
  g.startMarker :: b.lines ++ [g.endMarker]

/-- Lines that hold one block for each of the given interfaces, in order. In front of the blocks,
between them and behind them stand any lines that are no start markers. -/
inductive Laid (g : Grammar) : List Interface → List String → Prop where
  /-- No line at all. -/
  | nil : Laid g [] []
  /-- A line outside of blocks. -/
  | other {line : String} {interfaces : List Interface} {lines : List String}
      (single : '\n' ∉ line.toList) (outside : plainLine line ≠ g.startMarker)
      (later : Laid g interfaces lines) : Laid g interfaces (line :: lines)
  /-- A block of which no line but the first and the last is a marker. -/
  | block {i : Interface} {interfaces : List Interface} {lines laid : List String}
      (closer : List String → String) (closes : ∀ path, IsCloser (closer path))
      (inside : ∀ line ∈ (i.block g closer).lines, line ≠ g.startMarker ∧ line ≠ g.endMarker)
      (indented : Indented ((i.block g closer).marked g) laid)
      (later : Laid g interfaces lines) : Laid g (i :: interfaces) (laid ++ lines)

/-! ## Words -/

/-- A word that is written with characters of a kind. -/
def IsWord (P : Char → Prop) (w : String) : Prop :=
  w ≠ "" ∧ ∀ c ∈ w.toList, P c

section

variable {P : Char → Prop} {g : Grammar} {closer : List String → String}

/-- Any text becomes a word when a word is put behind it. -/
theorem IsWord.append {s w : String} (hs : Written P s) (hw : IsWord P w) :
    IsWord P (s ++ w) := by
  refine ⟨fun h => hw.1 (String.append_eq_empty_iff.1 h).2, fun c hc => ?_⟩
  rw [String.toList_append, List.mem_append] at hc
  exact hc.elim (hs c) (hw.2 c)

/-- Whether the keyword, braces and separators of declarations are characters of a kind. -/
def Punctuates (P : Char → Prop) : Prop :=
  (∀ c ∈ [':', ';', ']', '\x7b', '\x7d'], P c) ∧ Written P "interface"

/-- Braces, and what is put behind names and types, are words. -/
theorem Punctuates.mark (h : Punctuates P) :
    ∀ w ∈ [":", "]:", ";", "\x7b", "\x7d", "\x7d;"], IsWord P w := by
  have hchars : ∀ w ∈ [":", "]:", ";", "\x7b", "\x7d", "\x7d;"],
      w ≠ "" ∧ ∀ c ∈ w.toList, c ∈ [':', ';', ']', '\x7b', '\x7d'] := by decide
  exact fun w hw => ⟨(hchars w hw).1, fun c hc => h.1 c ((hchars w hw).2 c hc)⟩

theorem IsCloser.isWord {w : String} (hw : IsCloser w) (h : Punctuates P) : IsWord P w := by
  rcases hw with rfl | rfl <;> exact h.mark _ (by decide)

theorem IndexSignature.isWord_of_mem_words (hP : Punctuates P) (hopener : Written P g.indexOpener)
    {s : IndexSignature} (hkey : Written P s.key)
    (hvalue : ∀ token ∈ s.value.token?, Written P token) : ∀ w ∈ s.words g, IsWord P w := by
  obtain ⟨key, value | inner⟩ := s
  · simp only [words, List.forall_mem_cons, List.not_mem_nil, false_imp_iff, implies_true, and_true]
    exact ⟨.append hopener (hP.mark _ (by decide)), .append hkey (hP.mark _ (by decide)),
      .append (hvalue value rfl) (hP.mark _ (by decide))⟩
  · intro w hw
    cases hw

mutual

/-- The lines between the braces of an interface are made of words, in the characters of its
texts. -/
theorem Interface.isWord_of_mem_bodyLines (hP : Punctuates P) (hc : ∀ path, IsCloser (closer path))
    (path : List String) : ∀ i : Interface, (∀ level ∈ i.levels, level.WrittenIn g P) →
      ∀ words ∈ i.bodyLines g closer path, ∀ w ∈ words, IsWord P w
  | ⟨name, ⟨members⟩, signatures⟩, h, words, hwords => by
    obtain ⟨hself, hopener⟩ := h _ (Interface.mem_levels_self _)
    have hbelow : ∀ level ∈ memberLevels members, level.WrittenIn g P := fun level hl =>
      h level (List.mem_cons_of_mem _ hl)
    simp only [Interface.texts, List.forall_mem_append, List.forall_mem_flatMap,
      List.forall_mem_cons, Option.mem_toList] at hself
    rcases List.mem_append.1 hwords with hm | hm
    · obtain ⟨s, hs, rfl⟩ := List.mem_map.1 hm
      exact IndexSignature.isWord_of_mem_words hP (hopener (List.ne_nil_of_mem hs))
        (hself.2 s hs).1 (hself.2 s hs).2
    · exact isWord_of_mem_memberLines hP hc path members (fun e he => (hself.1 e he).1)
        (fun e he => (hself.1 e he).2) hbelow words hm

theorem TypeExpr.isWord_of_mem_lines (hP : Punctuates P) (hc : ∀ path, IsCloser (closer path))
    (path : List String) {key : String} (hkey : Written P key) : ∀ type : TypeExpr,
    (∀ token ∈ type.token?, Written P token) → (∀ level ∈ type.levels, level.WrittenIn g P) →
        ∀ words ∈ type.lines g closer path key, ∀ w ∈ words, IsWord P w
  | .named token, htoken, _ => by
    have hname := IsWord.append hkey (hP.mark ":" (by decide))
    have htype := IsWord.append (htoken token rfl) (hP.mark ";" (by decide))
    simpa [TypeExpr.lines] using ⟨hname, htype⟩
  | .object inner, _, h => by
    have hname := IsWord.append hkey (hP.mark ":" (by decide))
    have hbody := inner.isWord_of_mem_bodyLines hP hc (path ++ [key]) h
    simp only [TypeExpr.lines, List.forall_mem_append, List.forall_mem_cons]
    exact ⟨⟨⟨hname, hP.mark _ (by decide), by simp⟩, hbody⟩, ⟨(hc _).isWord hP, by simp⟩, by simp⟩

theorem isWord_of_mem_memberLines (hP : Punctuates P) (hc : ∀ path, IsCloser (closer path))
    (path : List String) : ∀ members : List (String × TypeExpr),
    (∀ e ∈ members, Written P e.1) →
      (∀ e ∈ members, ∀ token ∈ e.2.token?, Written P token) →
        (∀ level ∈ memberLevels members, level.WrittenIn g P) →
          ∀ words ∈ memberLines g closer path members, ∀ w ∈ words, IsWord P w
  | [], _, _, _ => by simp [memberLines]
  | (key, type) :: rest, hkeys, htokens, h => by
    obtain ⟨hlevels, hrest⟩ := forall_mem_memberLevels_cons h
    rw [memberLines, List.forall_mem_append]
    exact ⟨TypeExpr.isWord_of_mem_lines hP hc path (hkeys _ List.mem_cons_self) type
        (htokens _ List.mem_cons_self) hlevels,
      isWord_of_mem_memberLines hP hc path rest (fun e he => hkeys e (List.mem_cons_of_mem _ he))
        (fun e he => htokens e (List.mem_cons_of_mem _ he)) hrest⟩

end

/-- The lines of a declaration are made of words. -/
theorem Interface.isWord_of_mem_declarationLines (hP : Punctuates P)
    (hc : ∀ path, IsCloser (closer path)) {i : Interface} (hname : IsWord P i.name)
    (h : ∀ level ∈ i.levels, level.WrittenIn g P) :
    ∀ words ∈ i.declarationLines g closer, ∀ w ∈ words, IsWord P w := by
  have hbody := i.isWord_of_mem_bodyLines hP hc [] h
  simp only [declarationLines, List.forall_mem_append, List.forall_mem_cons]
  exact ⟨⟨⟨⟨by decide, hP.2⟩, hname, hP.mark _ (by decide), by simp⟩, hbody⟩,
    ⟨hP.mark _ (by decide), by simp⟩, by simp⟩

end

/-! ## Plain lines -/

/-- A text that is the plain form of a line, of itself for one. -/
structure IsPlain (line : String) : Prop where
  single : '\n' ∉ line.toList
  plain : plainLine line = line

theorem isPlain_of_mem_plainLines {text line : String} (h : line ∈ plainLines text) :
    IsPlain line := by
  rw [plainLines_eq, ← splitAt_eq_splitOn] at h
  obtain ⟨raw, hraw, rfl⟩ := List.mem_map.1 h
  refine ⟨fun hn => ?_, plainLine_plainLine _⟩
  have := mem_plainLine hn
  have := of_mem_splitAt hraw '\n'
  simp_all

/-- A grammar whose markers can be found, and told apart. -/
structure Grammar.Separates (g : Grammar) : Prop where
  distinct : g.startMarker ≠ g.endMarker
  unbroken : ∀ marker ∈ [g.startMarker, g.endMarker], ∀ c ∈ ['\t', '\r', '\n'], c ∉ marker.toList
  trimmed : ∀ marker ∈ [g.startMarker, g.endMarker], trim marker.toList = marker.toList

theorem Grammar.Separates.isPlain {g : Grammar} (h : g.Separates) :
    ∀ marker ∈ [g.startMarker, g.endMarker], IsPlain marker := by
  intro marker hm
  have hfree := h.unbroken marker hm
  refine ⟨hfree _ (by decide), ?_⟩
  rw [plainLine, plain_eq_self (hfree _ (by decide)) (hfree _ (by decide)), h.trimmed marker hm,
    String.ofList_toList]

/-- Interfaces that can be written as lines of words. -/
structure Interface.Printable (g : Grammar) (i : Interface) : Prop where
  name : IsWord (isBlank · = false) i.name
  levels : ∀ level ∈ i.levels, level.Readable g ∧ ∀ s ∈ level.texts, Bare s

/-- Lines that are plain are found again behind any indentation. -/
theorem Indented.map_plainLine {lines laid : List String} (h : Indented lines laid)
    (hplain : ∀ line ∈ lines, IsPlain line) : laid.map plainLine = lines := by
  induction h with
  | nil => rfl
  | cons hline hrest ih =>
    obtain ⟨indent, hindent, rfl⟩ := hline
    obtain ⟨hline, hlater⟩ := List.forall_mem_cons.1 hplain
    rw [List.map_cons, plainLine_append_left hindent.blanks, hline.plain, ih hlater]

theorem Indented.single {lines laid : List String} (h : Indented lines laid)
    (hplain : ∀ line ∈ lines, IsPlain line) : ∀ line ∈ laid, '\n' ∉ line.toList := by
  induction h with
  | nil => exact fun _ h => absurd h List.not_mem_nil
  | cons hline hrest ih =>
    obtain ⟨indent, hindent, rfl⟩ := hline
    obtain ⟨hline, hlater⟩ := List.forall_mem_cons.1 hplain
    refine List.forall_mem_cons.2 ⟨?_, ih hlater⟩
    rw [String.toList_append, List.mem_append]
    exact not_or.2 ⟨hindent.blanks.not_newline, hline.single⟩

end InterfaceSchema
