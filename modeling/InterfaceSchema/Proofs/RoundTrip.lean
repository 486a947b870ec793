import InterfaceSchema.Proofs.Feeding
import InterfaceSchema.Proofs.Insertion
import InterfaceSchema.Proofs.Layout

/-!
# Reading what was laid out

A builder that is fed the lines of an interface adds its signatures and members to the innermost
level. From this and from what becomes of lines and blocks it follows that a text into which
interfaces have been laid out is read as these interfaces.

## Main definitions

* `Frame.addAll` — a level with the content of another added to it.
-/

namespace InterfaceSchema

/-! ## Adding a whole level -/

namespace Frame

/-- A level with members and index signatures added to it. -/
def addAll (f : Frame) (members : List (String × TypeExpr)) (signatures : List IndexSignature) :
    Frame :=
  ⟨f.name, members.foldl (fun m e => m.insert e.1 e.2) f.members,
    signatures.reverse ++ f.signatures⟩

theorem addAll_name (members : List (String × TypeExpr)) (signatures : List IndexSignature)
    (f : Frame) : (f.addAll members signatures).name = f.name := rfl

theorem addAll_addSignature (f : Frame) (key value : String) (signatures : List IndexSignature) :
    (f.addSignature key value).addAll [] signatures
      = f.addAll [] (⟨key, .named value⟩ :: signatures) := by
  simp [addAll, addSignature]

/-- All that an interface holds, added to nothing, is the interface. -/
theorem interface_addAll_ofName {i : Interface} (h : i.members.Distinct) :
    ((ofName i.name).addAll i.members.entries i.signatures).interface = i := by
  obtain ⟨name, members, signatures⟩ := i
  simp only [interface, addAll, ofName, List.append_nil, List.reverse_reverse, Interface.mk.injEq,
    true_and, and_true]
  exact FieldMap.ofList_entries h

end Frame

/-! ## Feeding laid out lines -/

namespace InterfaceBuilder

variable {g : Grammar} {closer : List String → String} {b : InterfaceBuilder}

theorem after_signature (he : b.expecting = .entry) (key value : String) :
    b.after g (IndexSignature.words g ⟨key, .named value⟩) =
      b.modifyInnermost (·.addSignature key value) := by
  have hkey : step? g { b with expecting := .indexKey } (key ++ "]:") =
      some { b with expecting := .indexValue key } := by
    rw [step?_indexKey, stripSuffix?_append, Option.map_some]
  have hvalue : step? g { b with expecting := .indexValue key } (value ++ ";") =
      some (b.modifyInnermost (·.addSignature key value)) := by
    rw [step?_indexValue he, stripSuffix?_append, Option.map_some]
  rw [IndexSignature.words, after_cons_of_step (step?_opener he), after_cons_of_step hkey,
    after_cons_of_step hvalue, after_nil]

/-- The lines of index signatures add them in order. -/
theorem after_signatures {signatures : List IndexSignature} (he : b.expecting = .entry)
    (hs : ∀ s ∈ signatures, s.value.object? = none) :
    b.after g (signatures.map (·.words g)).flatten =
      b.modifyInnermost (·.addAll [] signatures) := by
  induction signatures generalizing b with
  | nil =>
    obtain ⟨root, frames, expecting⟩ := b
    cases frames <;> rfl
  | cons s rest ih =>
    obtain ⟨key, _ | inner⟩ := s
    · next value =>
      rw [List.map_cons, List.flatten_cons, after_append, after_signature he,
        ih (by simpa using he) fun s h => hs s (List.mem_cons_of_mem _ h),
        modifyInnermost_modifyInnermost]
      congr 1
      funext f
      exact f.addAll_addSignature key value rest
    · exact absurd (hs _ List.mem_cons_self) (by simp [TypeExpr.object?])

theorem after_namedMember (he : b.expecting = .entry) {key : String} (hne : key ≠ "")
    (hopener : key ≠ g.indexOpener) (token : String) :
    b.after g [key ++ ":", token ++ ";"] = b.modifyInnermost (·.addMember key (.named token)) := by
  have htype : typeStart? (token ++ ";") = some (some token) := by
    have hbrace : token ++ ";" ≠ "\x7b" := by
      intro h
      have hlast := congrArg (fun s => s.toList.getLast?) h
      simp at hlast
    rw [typeStart?, if_neg hbrace, stripSuffix?_append, Option.map_some]
  have hstep : step? g { b with expecting := .memberType key } (token ++ ";") =
      some (b.modifyInnermost (·.addMember key (.named token))) := by
    rw [step?_memberType he, htype, Option.map_some, beginType]
  rw [after_cons_of_step (step?_name he hopener hne), after_cons_of_step hstep, after_nil]

theorem after_objectMember (he : b.expecting = .entry) {key : String} (hne : key ≠ "")
    (hopener : key ≠ g.indexOpener) :
    b.after g [key ++ ":", "\x7b"] = { b with frames := .ofName key :: b.frames } := by
  have hstep : step? g { b with expecting := .memberType key } "\x7b" =
      some { b with frames := .ofName key :: b.frames } := by
    rw [step?_memberType he]
    rfl
  rw [after_cons_of_step (step?_name he hopener hne), after_cons_of_step hstep, after_nil]

mutual

/-- The lines between the braces of an interface add what it holds to the innermost level. -/
theorem after_bodyLines (hc : ∀ path, IsCloser (closer path)) (b : InterfaceBuilder)
    (he : b.expecting = .entry) (path : List String) : ∀ i : Interface,
    (∀ level ∈ i.levels, level.Readable g) →
      b.after g (i.bodyLines g closer path).flatten =
        b.modifyInnermost (·.addAll i.members.entries i.signatures)
  | ⟨name, ⟨members⟩, signatures⟩, h => by
    have hlevel := h _ (Interface.mem_levels_self _)
    have hbelow : ∀ level ∈ memberLevels members, level.Readable g := fun level hl =>
      h level (List.mem_cons_of_mem _ hl)
    rw [Interface.bodyLines, List.flatten_append, after_append,
      after_signatures he hlevel.words,
      after_memberLines hc _ (by simpa using he) path members hlevel.keys hlevel.named hbelow,
      modifyInnermost_modifyInnermost]
    rfl

theorem after_typeLines (hc : ∀ path, IsCloser (closer path)) (b : InterfaceBuilder)
    (he : b.expecting = .entry) (path : List String) {key : String}
    (hkey : key ≠ "" ∧ key ≠ g.indexOpener) : ∀ type : TypeExpr,
    NamesObject (key, type) → (∀ level ∈ type.levels, level.Readable g) →
      b.after g (type.lines g closer path key).flatten = b.modifyInnermost (·.addMember key type)
  | .named token, _, _ => by
    simpa [TypeExpr.lines] using after_namedMember he hkey.1 hkey.2 token
  | .object inner, hname, h => by
    have hinner : inner.name = key := hname inner rfl
    have hlevel := h inner (Interface.mem_levels_self inner)
    -- the object is read on a level of its own, which the closing brace then makes a member
    let opened : InterfaceBuilder := { b with frames := .ofName key :: b.frames }
    let filled := opened.modifyInnermost (·.addAll inner.members.entries inner.signatures)
    have hbody : opened.after g (inner.bodyLines g closer (path ++ [key])).flatten = filled :=
      after_bodyLines hc opened he (path ++ [key]) inner h
    have hframes : filled.frames ≠ [] := by simp [filled, opened]
    have hcontent : filled.innermost.interface = inner := by
      subst hinner
      rw [innermost_modifyInnermost]
      exact Frame.interface_addAll_ofName hlevel.distinct
    have hclose : filled.closeWith inner = b.modifyInnermost (·.addMember key (.object inner)) := by
      rw [closeWith_modifyInnermost opened (Frame.addAll_name _ _) inner hframes]
      rfl
    have hstep := step?_closer (g := g) (b := filled) (by simpa [filled, opened] using he) hframes
      (hc (path ++ [key]))
    rw [hcontent, hclose] at hstep
    have hflat : ((TypeExpr.object inner).lines g closer path key).flatten = [key ++ ":", "\x7b"]
        ++ ((inner.bodyLines g closer (path ++ [key])).flatten ++ [closer (path ++ [key])]) := by
      simp [TypeExpr.lines]
    rw [hflat, after_append, after_objectMember he hkey.1 hkey.2, after_append]
    change (opened.after g _).after g _ = _
    rw [hbody, after_cons_of_step hstep, after_nil]

/-- The lines of members add them to the innermost level in order. -/
theorem after_memberLines (hc : ∀ path, IsCloser (closer path)) (b : InterfaceBuilder)
    (he : b.expecting = .entry) (path : List String) : ∀ members : List (String × TypeExpr),
    (∀ key ∈ members.map Prod.fst, key ≠ "" ∧ key ≠ g.indexOpener) →
      (∀ e ∈ members, NamesObject e) → (∀ level ∈ memberLevels members, level.Readable g) →
        b.after g (memberLines g closer path members).flatten =
          b.modifyInnermost (·.addAll members [])
  | [], _, _, _ => by
    obtain ⟨root, frames, expecting⟩ := b
    cases frames <;> rfl
  | (key, type) :: rest, hkeys, hnames, h => by
    obtain ⟨htype, hrest⟩ := forall_mem_memberLevels_cons h
    rw [memberLines, List.flatten_append, after_append,
      after_typeLines hc b he path (hkeys key (by simp)) type (hnames _ List.mem_cons_self) htype,
      after_memberLines hc _ (by simpa using he) path rest
        (fun k hk => hkeys k (List.mem_cons_of_mem _ hk))
        (fun e hm => hnames e (List.mem_cons_of_mem _ hm)) hrest,
      modifyInnermost_modifyInnermost]
    rfl

end

end InterfaceBuilder

/-! ## Blocks -/

/-- A block with the tokens of a declaration is read as what is declared. -/
theorem Block.interface_of_tokens {g : Grammar} {closer : List String → String}
    (hc : ∀ path, IsCloser (closer path)) {i : Interface}
    (hi : ∀ level ∈ i.levels, level.Readable g) {b : Block}
    (htokens : b.tokens = (i.declarationLines g closer).flatten) :
    (b.interface g).1 = i := by
  have hdeclaration : b.declaration = ⟨"interface", i.name, (i.bodyLines g closer []).flatten⟩ := by
    rw [Block.declaration, htokens]
    simp [Declaration.ofTokens, Interface.declarationLines]
  have hbody : (InterfaceBuilder.start i.name).after g (i.bodyLines g closer []).flatten =
      (InterfaceBuilder.start i.name).modifyInnermost (·.addAll i.members.entries i.signatures) :=
    InterfaceBuilder.after_bodyLines hc _ rfl [] i hi
  rw [Block.interface, hdeclaration]
  change ((InterfaceBuilder.start i.name).after g _).root.interface = i
  rw [hbody]
  exact Frame.interface_addAll_ofName (hi i i.mem_levels_self).distinct

namespace Extraction

variable {g : Grammar} (closed : List Block)

/-- A line outside of blocks changes nothing unless it is a start marker. -/
theorem line_outside {line : String} (h : line ≠ g.startMarker) :
    Extraction.line g ⟨closed, none⟩ line = ⟨closed, none⟩ := by
  rw [Extraction.line, if_neg h]
  split_ifs <;> rfl

/-- Lines inside a block that are no markers are captured. -/
theorem foldl_line_inside {lines : List String}
    (h : ∀ line ∈ lines, line ≠ g.startMarker ∧ line ≠ g.endMarker) (captured : List String) :
    lines.foldl (Extraction.line g) ⟨closed, some captured⟩ =
      ⟨closed, some (lines.reverse ++ captured)⟩ := by
  induction lines generalizing captured with
  | nil => rfl
  | cons line rest ih =>
    obtain ⟨hline, hrest⟩ := List.forall_mem_cons.1 h
    have hstep : Extraction.line g ⟨closed, some captured⟩ line =
        ⟨closed, some (line :: captured)⟩ := by
      rw [Extraction.line, if_neg hline.1, if_neg hline.2, Option.map_some]
    rw [List.foldl_cons, hstep, ih hrest]
    simp

/-- Two markers and the lines between them become a block. -/
theorem foldl_line_marked (hg : g.startMarker ≠ g.endMarker) {b : Block}
    (h : ∀ line ∈ b.lines, line ≠ g.startMarker ∧ line ≠ g.endMarker) :
    (b.marked g).foldl (Extraction.line g) ⟨closed, none⟩ = ⟨b :: closed, none⟩ := by
  have hopen : Extraction.line g ⟨closed, none⟩ g.startMarker = ⟨closed, some []⟩ := by
    rw [Extraction.line, if_pos rfl, Option.getD_none]
  have hclose : Extraction.line g ⟨closed, some b.lines.reverse⟩ g.endMarker =
      ⟨b :: closed, none⟩ := by
    simp [Extraction.line, hg.symm]
  rw [Block.marked, List.cons_append, List.foldl_cons, hopen, List.foldl_append,
    foldl_line_inside closed h, List.append_nil, List.foldl_cons, hclose, List.foldl_nil]

end Extraction

namespace Interface.Printable

variable {g : Grammar} {closer : List String → String} {i : Interface} (h : i.Printable g)
  (hopener : Bare g.indexOpener) (hc : ∀ path, IsCloser (closer path))
include h hopener hc

theorem isBare_of_mem_declarationLines :
    ∀ words ∈ i.declarationLines g closer, ∀ w ∈ words, IsWord (isBlank · = false) w :=
  isWord_of_mem_declarationLines ⟨by decide, by unfold Written; decide⟩ hc h.name fun level hl =>
    ⟨(h.levels level hl).2, fun _ => hopener⟩

/-- The lines of a declaration, with or without markers around them, are plain. -/
theorem isPlain_of_mem_block : ∀ line ∈ (i.block g closer).lines, IsPlain line := by
  intro line hline
  obtain ⟨words, hwords, rfl⟩ := List.mem_map.1 hline
  have hw := h.isBare_of_mem_declarationLines hopener hc words hwords
  refine ⟨fun hn => ?_, plainLine_words (fun w hm => (hw w hm).1) fun w hm => (hw w hm).2⟩
  rcases mem_intercalate_words hn with hspace | ⟨w, hm, hn⟩
  · exact absurd hspace (by decide)
  · exact Bare.not_mem (hw w hm).2 (by decide) hn

theorem isPlain_of_mem_marked (hg : g.Separates) :
    ∀ line ∈ (i.block g closer).marked g, IsPlain line := by
  rw [Block.marked, List.forall_mem_append, List.forall_mem_cons, List.forall_mem_singleton]
  exact ⟨⟨hg.isPlain _ (by simp), h.isPlain_of_mem_block hopener hc⟩, hg.isPlain _ (by simp)⟩

theorem tokens_block : (i.block g closer).tokens = (i.declarationLines g closer).flatten := by
  have hw := h.isBare_of_mem_declarationLines hopener hc
  have hline : ∀ words ∈ i.declarationLines g closer,
      lineTokens (" ".intercalate words) = words := fun words hm =>
    lineTokens_words (fun w hm' => (hw words hm w hm').1) fun w hm' =>
      Bare.not_mem (hw words hm w hm').2 (by decide)
  rw [Block.tokens, Interface.block, List.flatMap_map, List.flatMap_def, List.map_congr_left hline,
    List.map_id']

theorem interface_block : ((i.block g closer).interface g).1 = i :=
  Block.interface_of_tokens hc (fun level hl => (h.levels level hl).1) (h.tokens_block hopener hc)

end Interface.Printable

/-! ## Whole texts -/

section

variable {g : Grammar} {interfaces : List Interface} {lines : List String}

theorem Laid.single (hg : g.Separates) (hopener : Bare g.indexOpener)
    (h : Laid g interfaces lines) (hi : ∀ i ∈ interfaces, i.Printable g) :
    ∀ line ∈ lines, '\n' ∉ line.toList := by
  induction h with
  | nil => exact fun _ h => absurd h List.not_mem_nil
  | other hsingle houtside hlater ih => exact List.forall_mem_cons.2 ⟨hsingle, ih hi⟩
  | block closer hc hinside hindented hlater ih =>
    obtain ⟨hfirst, hrest⟩ := List.forall_mem_cons.1 hi
    have hplain := hfirst.isPlain_of_mem_marked hopener hc hg
    exact List.forall_mem_append.2 ⟨hindented.single hplain, ih hrest⟩

/-- Going through lines into which interfaces are laid out closes one block for each. -/
theorem Laid.foldl_line (hg : g.Separates) (hopener : Bare g.indexOpener)
    (h : Laid g interfaces lines) (hi : ∀ i ∈ interfaces, i.Printable g) (closed : List Block) :
    ∃ blocks : List Block, blocks.map (fun b => (b.interface g).1) = interfaces ∧
      (lines.map plainLine).foldl (Extraction.line g) ⟨closed, none⟩ =
        ⟨blocks.reverse ++ closed, none⟩ := by
  induction h generalizing closed with
  | nil => exact ⟨[], rfl, rfl⟩
  | other hsingle houtside hlater ih =>
    obtain ⟨blocks, hblocks, hfold⟩ := ih hi closed
    refine ⟨blocks, hblocks, ?_⟩
    rw [List.map_cons, List.foldl_cons, Extraction.line_outside closed houtside, hfold]
  | @block i _ _ _ closer hc hinside hindented hlater ih =>
    obtain ⟨hfirst, hrest⟩ := List.forall_mem_cons.1 hi
    have hplain := hindented.map_plainLine (hfirst.isPlain_of_mem_marked hopener hc hg)
    obtain ⟨blocks, hblocks, hfold⟩ := ih hrest (i.block g closer :: closed)
    refine ⟨i.block g closer :: blocks, ?_, ?_⟩
    · rw [List.map_cons, hblocks, hfirst.interface_block hopener hc]
    · rw [List.map_append, List.foldl_append, hplain,
        Extraction.foldl_line_marked closed hg.distinct hinside, hfold]
      simp

/-- The empty text holds no block, even if an empty line is the start marker. -/
theorem blocks_extract_empty (g : Grammar) : (extract g "").blocks = [] := by
  change (Extraction.line g .start "").blocks = []
  by_cases h : "" = g.startMarker
  · rw [Extraction.line, if_pos h]
    rfl
  · rw [Extraction.start, Extraction.line_outside [] h]
    rfl

/-- A text into which interfaces have been laid out, with any indentation and with any other lines
around the blocks, is read as these interfaces in order. -/
theorem parseSource_of_laid (hg : g.Separates) (hopener : Bare g.indexOpener)
    (hi : ∀ i ∈ interfaces, i.Printable g) (h : Laid g interfaces lines) :
    (parseSource g ("\n".intercalate lines)).1 = interfaces := by
  obtain ⟨blocks, hblocks, hfold⟩ := h.foldl_line hg hopener hi []
  have hextract : (extract g ("\n".intercalate lines)).blocks = blocks := by
    by_cases hne : lines = []
    · subst hne
      rw [String.intercalate_nil, blocks_extract_empty]
      simpa using hfold
    · rw [extract, plainLines_intercalate hne (h.single hg hopener hi)]
      exact (congrArg Extraction.blocks hfold).trans (by simp [Extraction.blocks])
  simp only [parseSource, hextract, List.map_map]
  exact hblocks

end

/-- Two interfaces, the first with an object and an index signature in it. -/
theorem parseSource_server_port :
    (parseSource {} ("\n".intercalate ("// settings" :: (["  /* SCHEMA */", "interface Server \x7b",
      "\t[key: string]: number;", "  limits: \x7b", "    port: number;", "\x7d;", "  \x7d",
      "/* END SCHEMA */"] ++ "" :: (["/* SCHEMA */", "interface Port \x7b", "\x7d",
      "\t/* END SCHEMA */"] ++ []))))).1 =
        [⟨"Server", ⟨[("limits", .object ⟨"limits", ⟨[("port", .named "number")]⟩, []⟩)]⟩,
          [⟨"string", .named "number"⟩]⟩, .ofName "Port"] := by
  have hname : ∀ s ∈ ["Server", "Port"], IsWord (isBlank · = false) s := fun s hs =>
    ⟨by revert s; decide, by revert s; decide⟩
  have hport : Laid {} [.ofName "Port"] (["/* SCHEMA */", "interface Port \x7b", "\x7d",
      "\t/* END SCHEMA */"] ++ []) :=
    .block (fun _ => "\x7d") (fun _ => .inl rfl) (by decide)
      (.cons ⟨"", by decide, by decide⟩ (.cons ⟨"", by decide, by decide⟩
        (.cons ⟨"", by decide, by decide⟩ (.cons ⟨"\t", by decide, by decide⟩ .nil)))) .nil
  refine parseSource_of_laid ⟨by decide, by decide, by decide⟩ (by decide) ?_
    (.other (by decide) (by decide) (.block (fun _ => "\x7d;") (fun _ => .inr rfl) (by decide) ?_
      (.other (by decide) (by decide) hport)))
  · rw [List.forall_mem_cons, List.forall_mem_singleton]
    exact ⟨⟨hname _ (by decide), by decide⟩, ⟨hname _ (by decide), by decide⟩⟩
  · exact .cons ⟨"  ", by decide, by decide⟩ (.cons ⟨"", by decide, by decide⟩
      (.cons ⟨"\t", by decide, by decide⟩ (.cons ⟨"  ", by decide, by decide⟩
        (.cons ⟨"    ", by decide, by decide⟩ (.cons ⟨"", by decide, by decide⟩
          (.cons ⟨"  ", by decide, by decide⟩ (.cons ⟨"", by decide, by decide⟩ .nil)))))))

end InterfaceSchema
