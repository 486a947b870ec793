import InterfaceSchema.Proofs.Options

/-!
# Independent options

A settings file with several options says what the files with one of them say, put together field by
field. This holds however the files are spelled: with blanks wherever they may stand and with escapes
in keys and strings.

## Main definitions

* `Settings.Document` — texts of settings files with given options.
* `Settings.HasOptions` — projects with such a settings file.
-/

namespace InterfaceSchema

open Json Json.Reader Utf8

namespace Settings

/-! ## Documents -/

/-- Texts of settings files: an object with the object of the options, which have the given names
and the given texts of values, under its only key. -/
def Document (entries : List (String × List UInt8)) (text : List UInt8) : Prop :=
  ∃ lead document options trail, Blank lead ∧ Blank trail ∧
    ObjectOf [("options", options)] document ∧ ObjectOf entries options ∧
      text = lead ++ (document ++ trail)

section Documents

variable {entries : List (String × List UInt8)} {text : List UInt8}

theorem attempt_optionsValue {depth : Nat} (hdepth : 1 < depth) {w : List UInt8}
    (hdistinct : (entries.map Prod.fst).Nodup) (hvalues : ∀ e ∈ entries, IsValue e.2)
    (h : ObjectOf entries w) (rest : List UInt8) :
    (optionsValue depth).attempt (w ++ rest) =
      (entries.foldlM (fun s e => (alone? (depth - 1) e).map (s.withField e.1)) {}).map
        (·, rest) := by
  have hobject : (recordObject fieldNames field depth ⟨{}, []⟩).attempt (w ++ rest) =
      (recorded? (field (depth - 1)) ⟨{}, []⟩ entries).map (·, rest) :=
    attempt_recordObject hdepth h hdistinct
      (fun e he d => settles_field (depth - 1) d e.1 (hvalues e he)) _ rest
  have hall := finished?_recorded? (depth - 1) (d := ⟨{}, []⟩) hdistinct
    fun _ _ => List.not_mem_nil
  have hfinished : Draft.finished? ⟨{}, []⟩ = some {} := rfl
  rw [hfinished, Option.bind_some] at hall
  obtain ⟨more, rfl⟩ := h.exists_cons
  rw [List.cons_append] at hobject
  rw [← hall, optionsValue, List.cons_append, attempt_token (by decide)]
  change (recordObject fieldNames field depth ⟨{}, []⟩ >>= fun d => _).attempt _ = _
  rw [attempt_bind, hobject]
  cases recorded? (field (depth - 1)) ⟨{}, []⟩ entries with
  | none => rfl
  | some d =>
    simp only [Option.map_some, Option.bind_some, Draft.finished?]
    cases pickGrammar [] d.settings.grammar d.others.reverse <;> rfl

theorem settles_documentField {depth : Nat} (hdepth : 1 < depth) {w : List UInt8}
    (hdistinct : (entries.map Prod.fst).Nodup) (hvalues : ∀ e ∈ entries, IsValue e.2)
    (h : ObjectOf entries w) (s : Settings) : Settles (documentField depth s "options") w := by
  rw [documentField, if_pos rfl]
  exact settles_of_token ⟨_, fun rest _ => attempt_optionsValue hdepth hdistinct hvalues h rest⟩

theorem result?_documentField {depth : Nat} (hdepth : 1 < depth) {w : List UInt8}
    (hdistinct : (entries.map Prod.fst).Nodup) (hvalues : ∀ e ∈ entries, IsValue e.2)
    (h : ObjectOf entries w) (s : Settings) : (documentField depth s "options").result? w =
      entries.foldlM (fun s e => (alone? (depth - 1) e).map (s.withField e.1)) {} := by
  have hattempt := attempt_optionsValue hdepth hdistinct hvalues h []
  rw [List.append_nil] at hattempt
  rw [documentField, if_pos rfl, result?, hattempt, Option.map_map]
  exact Option.map_id'

/-- The options of a settings file are chosen one after the other, each as if it were alone. -/
theorem toOption_read (hdistinct : (entries.map Prod.fst).Nodup)
    (hvalues : ∀ e ∈ entries, IsValue e.2) (h : Document entries text) :
    (read text).toOption =
      entries.foldlM (fun s e => (alone? 126 e).map (s.withField e.1)) {} := by
  obtain ⟨lead, document, options, trail, hlead, htrail, hdocument, hoptions, rfl⟩ := h
  have hobject : (recordObject ["options"] documentField depthLimit {}).attempt
      (document ++ trail) =
        (recorded? (documentField 127) {} [("options", options)]).map (·, trail) := by
    refine attempt_recordObject (by decide) hdocument (List.nodup_singleton _) ?_ _ trail
    intro e he s
    obtain rfl := List.mem_singleton.1 he
    exact settles_documentField (by decide) hdistinct hvalues hoptions s
  have hrecorded : recorded? (documentField 127) {} [("options", options)] =
      entries.foldlM (fun s e => (alone? 126 e).map (s.withField e.1)) {} := by
    rw [recorded?, List.foldlM_cons,
      result?_documentField (by decide) hdistinct hvalues hoptions]
    exact bind_pure _
  refine toOption_run ?_ htrail
  rw [recordValue, attempt_bind_peekToken?_gap hlead]
  obtain ⟨more, rfl⟩ := hdocument.exists_cons
  rw [List.cons_append, attempt_token (by decide), ← List.cons_append]
  exact hobject.trans (by rw [hrecorded])

/-- A member with blanks nowhere. -/
def denseMember (e : String × List UInt8) : Member :=
  ⟨[], encode (e.1.toList.flatMap escape), [], [], e.2, []⟩

/-- An object with blanks nowhere. -/
def denseObject (entries : List (String × List UInt8)) : List UInt8 :=
  0x7B :: (listed [] ((entries.map denseMember).map Member.text) ++ [0x7D])

theorem objectOf_denseObject (entries : List (String × List UInt8)) :
    ObjectOf entries (denseObject entries) := by
  have hspaced (e : String × List UInt8) : (denseMember e).Spaced :=
    ⟨blank_nil, blank_nil, blank_nil, blank_nil⟩
  refine .members blank_nil (List.forall₂_map_left_iff.2 (List.forall₂_same.2 fun e _ => ?_))
  exact ⟨hspaced e, stringBody_escaped e.1, rfl⟩

/-- Any options can be written down. -/
theorem document_denseObject (entries : List (String × List UInt8)) :
    Document entries (denseObject [("options", denseObject entries)]) :=
  ⟨[], _, _, [], blank_nil, blank_nil, objectOf_denseObject _, objectOf_denseObject entries,
    by rw [List.nil_append, List.append_nil]⟩

end Documents

/-! ## Projects -/

/-- Whether the project at `root` has a settings file with the given options. -/
def HasOptions (t : FileTree) (root : Path) (entries : List (String × List UInt8)) : Prop :=
  ∃ text, t.read (file root) = .ok text ∧ Document entries text

section Projects

variable {t : FileTree} {root : Path} {entries : List (String × List UInt8)}

theorem toOption_load (hdistinct : (entries.map Prod.fst).Nodup)
    (hvalues : ∀ e ∈ entries, IsValue e.2) (h : HasOptions t root entries) :
    (load t root).1.toOption =
      entries.foldlM (fun s e => (alone? 126 e).map (s.withField e.1)) {} := by
  obtain ⟨text, hread, htext⟩ := h
  rw [load_eq_of_read hread, ← toOption_read hdistinct hvalues htext]
  cases read text <;> rfl

theorem load_eq_ok_iff (hdistinct : (entries.map Prod.fst).Nodup)
    (hvalues : ∀ e ∈ entries, IsValue e.2) (h : HasOptions t root entries) {s : Settings} :
    (load t root).1 = .ok s ↔
      ∃ own : String → Settings, (∀ e ∈ entries, alone? 126 e = some (own e.1)) ∧
        (∀ name ∉ entries.map Prod.fst, own name = {}) ∧ s = assembled own := by
  have hstart : ({} : Settings) = assembled fun _ => {} := rfl
  rw [← toOption_eq_some_iff, toOption_load hdistinct hvalues h, hstart]
  exact foldlM_withField_eq_some_iff hdistinct

theorem exists_load_iff (hdistinct : (entries.map Prod.fst).Nodup)
    (hvalues : ∀ e ∈ entries, IsValue e.2) (h : HasOptions t root entries) :
    (∃ s, (load t root).1 = .ok s) ↔ ∀ e ∈ entries, ∃ s, alone? 126 e = some s := by
  simp only [← toOption_eq_some_iff, toOption_load hdistinct hvalues h]
  exact exists_foldlM_withField_iff

/-- A project with one option loads the settings in which it is chosen. -/
theorem load_single_eq_ok_iff {e : String × List UInt8} (hvalue : IsValue e.2)
    (h : HasOptions t root [e]) {s : Settings} :
    (load t root).1 = .ok s ↔ alone? 126 e = some s := by
  have hone : alone? 126 e = (alone? 126 e).map (withField {} e.1) :=
    finished?_field (d := ⟨{}, []⟩) List.not_mem_nil
  have hload := toOption_load (by simp) (List.forall_mem_singleton.2 hvalue) h
  rw [List.foldlM_cons, ← hone] at hload
  rw [← toOption_eq_some_iff, hload]
  exact iff_of_eq (congrArg (· = some s) (bind_pure _))

theorem load_perm (hdistinct : (entries.map Prod.fst).Nodup)
    (hvalues : ∀ e ∈ entries, IsValue e.2) (h : HasOptions t root entries)
    {others : List (String × List UInt8)} (hperm : others.Perm entries) {u : FileTree}
    (hu : HasOptions u root others) (s : Settings) :
    (load u root).1 = .ok s ↔ (load t root).1 = .ok s := by
  have hnames := hperm.map Prod.fst
  rw [load_eq_ok_iff hdistinct hvalues h, load_eq_ok_iff (hnames.nodup_iff.2 hdistinct)
    (fun e he => hvalues e (hperm.mem_iff.1 he)) hu]
  simp only [hperm.mem_iff, hnames.mem_iff]

theorem load_filter (hdistinct : (entries.map Prod.fst).Nodup)
    (hvalues : ∀ e ∈ entries, IsValue e.2) (h : HasOptions t root entries) {u : FileTree}
    (hu : HasOptions u root (entries.filter fun e => e.1 ∈ optionNames))
    (hothers : ∀ e ∈ entries, e.1 ∉ optionNames → ∃ s, alone? 126 e = some s) (s : Settings) :
    (load u root).1 = .ok s ↔ (load t root).1 = .ok s := by
  have hmem (e : String × List UInt8) :
      e ∈ entries.filter (fun e => e.1 ∈ optionNames) ↔ e ∈ entries ∧ e.1 ∈ optionNames := by
    simp
  have hdistinct' : ((entries.filter fun e => e.1 ∈ optionNames).map Prod.fst).Nodup :=
    hdistinct.sublist (List.filter_sublist.map Prod.fst)
  have hvalues' : ∀ e ∈ entries.filter (fun e => e.1 ∈ optionNames), IsValue e.2 :=
    fun e he => hvalues e ((hmem e).1 he).1
  have hloads : (∃ s, (load u root).1 = .ok s) ↔ ∃ s, (load t root).1 = .ok s := by
    rw [exists_load_iff hdistinct hvalues h, exists_load_iff hdistinct' hvalues' hu]
    refine ⟨fun hall e he => ?_, fun hall e he => hall e ((hmem e).1 he).1⟩
    by_cases hname : e.1 ∈ optionNames
    · exact hall e ((hmem e).2 ⟨he, hname⟩)
    · exact hothers e he hname
  -- both are put together from the same fields
  have hsame {s r : Settings} (hs : (load u root).1 = .ok s) (hr : (load t root).1 = .ok r) :
      s = r := by
    obtain ⟨own, hown, hdefault, rfl⟩ := (load_eq_ok_iff hdistinct' hvalues' hu).1 hs
    obtain ⟨own', hown', hdefault', rfl⟩ := (load_eq_ok_iff hdistinct hvalues h).1 hr
    refine assembled_congr_of_mem fun name hname => ?_
    by_cases hchosen : name ∈ entries.map Prod.fst
    · obtain ⟨e, he, rfl⟩ := List.mem_map.1 hchosen
      exact Option.some_inj.1 ((hown e ((hmem e).2 ⟨he, hname⟩)).symm.trans (hown' e he))
    · have hnot : name ∉ (entries.filter fun e => e.1 ∈ optionNames).map Prod.fst :=
        fun hin => hchosen ((List.filter_sublist.map Prod.fst).subset hin)
      rw [hdefault name hnot, hdefault' name hchosen]
  constructor
  · intro hs
    obtain ⟨r, hr⟩ := hloads.1 ⟨s, hs⟩
    rw [hsame hs hr, hr]
  · intro hs
    obtain ⟨r, hr⟩ := hloads.2 ⟨s, hs⟩
    rw [← hsame hr hs, hr]

end Projects

/-- The options of a settings file are read independently of each other. With options of different
names, whatever their values are and however the file is spelled, a project loads exactly if each
of the projects that have one of these options does. Every field then is the one that the project
with this option has, or the default if the option is not among them.

So neither the order of the options counts nor any option that is unknown, as long as a project
with it loads at all. -/
theorem load_options {entries : List (String × List UInt8)} {t : FileTree} {root : Path}
    {single : String × List UInt8 → FileTree} (hdistinct : (entries.map Prod.fst).Nodup)
    (hvalues : ∀ e ∈ entries, IsValue e.2) (hall : HasOptions t root entries)
    (hsingle : ∀ e ∈ entries, HasOptions (single e) root [e]) :
    ((∃ s, (load t root).1 = .ok s) ↔ ∀ e ∈ entries, ∃ s, (load (single e) root).1 = .ok s) ∧
      (∀ s, (load t root).1 = .ok s ↔ ∃ own : String → Settings,
        (∀ e ∈ entries, (load (single e) root).1 = .ok (own e.1)) ∧
          (∀ name ∉ entries.map Prod.fst, own name = {}) ∧ s = assembled own) ∧
      (∀ (others : List (String × List UInt8)) (u : FileTree), others.Perm entries →
        HasOptions u root others → ∀ s, (load u root).1 = .ok s ↔ (load t root).1 = .ok s) ∧
      ∀ u : FileTree, HasOptions u root (entries.filter fun e => e.1 ∈ optionNames) →
        (∀ e ∈ entries, e.1 ∉ optionNames → ∃ s, (load (single e) root).1 = .ok s) →
          ∀ s, (load u root).1 = .ok s ↔ (load t root).1 = .ok s := by
  have halone : ∀ e ∈ entries, ∀ s, (load (single e) root).1 = .ok s ↔ alone? 126 e = some s :=
    fun e he _ => load_single_eq_ok_iff (hvalues e he) (hsingle e he)
  refine ⟨?_, fun s => ?_, fun others u hperm hu => load_perm hdistinct hvalues hall hperm hu,
    fun u hu hothers => load_filter hdistinct hvalues hall hu fun e he hname => ?_⟩
  · rw [exists_load_iff hdistinct hvalues hall]
    exact forall₂_congr fun e he => exists_congr fun s => (halone e he s).symm
  · rw [load_eq_ok_iff hdistinct hvalues hall]
    refine exists_congr fun own => and_congr_left' ?_
    exact forall₂_congr fun e he => (halone e he _).symm
  · obtain ⟨s, hs⟩ := hothers e he hname
    exact ⟨s, (halone e he s).1 hs⟩

/-- A marker, a number and an option that is unknown. -/
theorem load_options_unknown_between :
    let entries : List (String × List UInt8) := [("startMarker", [0x22, 0x3C, 0x22]),
      ("note", [0x6E, 0x75, 0x6C, 0x6C]), ("maxFileSize", [0x37])]
    let project (entries : List (String × List UInt8)) : FileTree :=
      FileTree.putAt ⟨.emptyDirectory, []⟩ ["ischema.json"]
        (.file (denseObject [("options", denseObject entries)]))
    (entries.map Prod.fst).Nodup ∧ (∀ e ∈ entries, IsValue e.2) ∧
      HasOptions (project entries) ⟨"."⟩ entries ∧
      (∀ e ∈ entries, HasOptions (project [e]) ⟨"."⟩ [e]) ∧
      (load (project entries) ⟨"."⟩).1 =
        .ok { maxFileSize := 7, grammar := { startMarker := "<" } } := by
  intro entries project
  have hdistinct : (entries.map Prod.fst).Nodup := by decide
  have hmarker : IsValue [0x22, 0x3C, 0x22] :=
    .string (.plain (by decide) (by decide) (by decide) .nil)
  have hseven : Whole [0x37] := ⟨⟨by decide, List.forall_mem_singleton.2 rfl⟩, by simp⟩
  have hvalues : ∀ e ∈ entries, IsValue e.2 :=
    List.forall_mem_cons.2 ⟨hmarker, List.forall_mem_cons.2 ⟨.null,
      List.forall_mem_singleton.2 (.number (.parts hseven .absent .absent))⟩⟩
  have hproject (entries : List (String × List UInt8)) :
      HasOptions (project entries) ⟨"."⟩ entries :=
    ⟨_, rfl, document_denseObject entries⟩
  have hload := (load_options hdistinct hvalues (hproject entries) fun e _ => hproject [e]).2.1
  refine ⟨hdistinct, hvalues, hproject entries, fun e _ => hproject [e], (hload _).2 ?_⟩
  refine ⟨fun name =>
    if name = "startMarker" then { grammar := { startMarker := "<" } }
    else if name = "maxFileSize" then { maxFileSize := 7 }
    else {}, ?_, ?_, rfl⟩
  · exact List.forall_mem_cons.2 ⟨rfl, List.forall_mem_cons.2 ⟨rfl,
      List.forall_mem_singleton.2 rfl⟩⟩
  · intro name hname
    simp [entries] at hname
    simp [hname]

end Settings

end InterfaceSchema
