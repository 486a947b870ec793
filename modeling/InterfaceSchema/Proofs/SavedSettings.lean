import InterfaceSchema.Proofs.SettingsFile
import InterfaceSchema.Proofs.TypedReading

/-!
# Saved settings

Settings that are written as JSON are read back as they were, whatever their strings, lists and
numbers are. The fields of the grammar stand among the choices but are not read with them: they are
picked from what is left over when all members have been read.

So loading and saving settles at once: saving what has been loaded from a text gives a text that is
loaded as the same settings and saved as it stands.

## Main definitions

* `Settings.written` — the document that holds settings, in a style.
* `Settings.rewritten` — what is saved for the settings that a text holds.
-/

namespace InterfaceSchema

open Json Json.Reader Utf8

/-! ## Placements and grammars -/

@[simp] theorem SignaturePlacement.ofName?_name (p : SignaturePlacement) :
    ofName? p.name = some p := by
  cases p <;> rfl

theorem SignaturePlacement.takes_jsonValue (style : Style) (depth : Nat) (p : SignaturePlacement) :
    Takes style (jsonValue depth) p.toJson p := by
  refine takes_of_token fun outer rest _ => ?_
  have hname : nameValue (0x22 :: ((encode (stringText p.name)).tail ++ rest)) = .ok (p, rest) := by
    rw [nameValue, bind_of_eq (skip_cons _ _), bind_of_eq (stringBody_stringText p.name rest),
      ofName?_name]
    rfl
  rw [toJson, spread, encode_stringText, List.cons_append]
  exact hname

/-- The fields of a grammar are picked from its members, whatever grammar there was before. -/
theorem Settings.pickGrammar_jsonMembers (old g : Grammar) :
    pickGrammar [] old g.jsonMembers = .ok g :=
  rfl

/-! ## Members -/

namespace Settings

theorem nodup_keys_jsonMembers (s : Settings) : (s.jsonMembers.map Prod.fst).Nodup := by
  have hkeys : s.jsonMembers.map Prod.fst = fieldNames ++ Grammar.fieldNames := rfl
  rw [hkeys]
  decide

section Members

variable {style : Style} (hs : style.Blank)

/-- A field that is read directly: its value is taken by a reader of its own and then put into the
settings. -/
theorem takes_field_own {α : Type} {depth : Nat} {name : String} {v : Json} {reader : Reader α}
    {value : α} (put : Settings → α → Settings) (hname : name ∈ fieldNames)
    (hown : ∀ s, ownField depth s name = do return put s (← reader))
    (h : Takes style reader v value) (d : Draft) :
    Takes style (field depth d name) v { d with settings := put d.settings value } := by
  unfold field
  simp only [if_pos hname, hown]
  exact (h.map (put d.settings)).map fun s => { d with settings := s }

include hs

theorem takes_field_other {depth : Nat} (d : Draft) {name : String} {v : Json}
    (hname : name ∉ fieldNames) (h : v.Fits (depth - 1)) :
    Takes style (field depth d name) v { d with others := (name, v) :: d.others } := by
  unfold field
  simp only [if_neg hname]
  exact (takes_anyValue hs h).map fun w => { d with others := (name, w) :: d.others }

theorem takes_stringList {depth : Nat} (hdepth : 1 < depth) (l : List String) :
    Takes style (stringList depth) (.array (l.map .string)) l :=
  takes_listOf hs hdepth (fun s _ => begins_spread (.string 0 s))
    (fun s _ => takes_stringValue style .string s)

/-- The members of settings make them of any settings, but for the grammar, of which the fields are
left over. -/
theorem fields_jsonMembers {depth : Nat} (hdepth : 1 < depth) (old s : Settings) :
    Fields style (field depth) ⟨old, []⟩ s.jsonMembers
      ⟨{ s with grammar := old.grammar }, s.grammar.jsonMembers.reverse⟩ := by
  have hlist := takes_stringList hs hdepth
  have hplacement := SignaturePlacement.takes_jsonValue style depth s.placement
  refine .cons (takes_field_own (fun now dir => { now with rootDir := dir }) (by decide)
    (fun _ => rfl) (takes_stringValue style .path s.rootDir) _) ?_
  refine .cons (takes_field_own (fun now dir => { now with outDir := dir }) (by decide)
    (fun _ => rfl) (takes_stringValue style .path s.outDir) _) ?_
  refine .cons (takes_field_own
    (fun now l => { now with filter := { now.filter with extensions := l } }) (by decide)
    (fun _ => rfl) (hlist s.filter.extensions) _) ?_
  refine .cons (takes_field_own
    (fun now l => { now with filter := { now.filter with skipDirs := l } }) (by decide)
    (fun _ => rfl) (hlist s.filter.skipDirs) _) ?_
  refine .cons (takes_field_own
    (fun now b => { now with filter := { now.filter with skipHidden := b } }) (by decide)
    (fun _ => rfl) (takes_boolValue style s.filter.skipHidden) _) ?_
  refine .cons (takes_field_own (fun now n => { now with maxFileSize := n }) (by decide)
    (fun _ => rfl) (takes_unsignedValue style s.maxFileSize) _) ?_
  refine .cons (takes_field_own (fun now p => { now with placement := p }) (by decide)
    (fun _ => rfl) hplacement _) ?_
  -- the fields of the grammar are left over
  exact .cons (takes_field_other hs _ (by decide) (.string _ s.grammar.startMarker)) <|
    .cons (takes_field_other hs _ (by decide) (.string _ s.grammar.endMarker)) <|
    .cons (takes_field_other hs _ (by decide) (.string _ s.grammar.indexOpener)) <| .nil _

theorem takes_optionsValue {inner : Nat} (hinner : 1 < inner) (s : Settings) :
    Takes style (optionsValue (inner + 1)) (.object s.jsonMembers) s := by
  refine takes_of_token fun outer rest _ => ?_
  have hobject : recordObject fieldNames field (inner + 1) ⟨{}, []⟩
      (encode (spread style outer (.object s.jsonMembers)) ++ rest) =
        .ok (⟨{ s with grammar := {} }, s.grammar.jsonMembers.reverse⟩, rest) :=
    recordObject_spread hs (by omega) (fields_jsonMembers hs hinner {} s)
      s.nodup_keys_jsonMembers outer rest
  rw [encode_spread_object, List.cons_append] at hobject ⊢
  rw [bind_of_eq (peekToken?_cons (by decide) _)]
  change (recordObject fieldNames field (inner + 1) ⟨{}, []⟩ >>= fun d => _) _ = _
  rw [bind_of_eq hobject, List.reverse_reverse, pickGrammar_jsonMembers]
  rfl

end Members

/-! ## Documents -/

/-- The document that holds settings, in a style. -/
def written (style : Style) (s : Settings) : List UInt8 :=
  encode (s.toJson.spread style 0)

theorem written_compact (s : Settings) : s.written .compact = utf8 s.toJson.compact := by
  rw [written, utf8, toList_compact]

theorem written_indented (s : Settings) : s.written .indented = utf8 s.toJson.indented := by
  rw [written, utf8, toList_indented]

/-- Settings are read back from the document that holds them. -/
theorem read_written {style : Style} (hs : style.Blank) (s : Settings) :
    read (s.written style) = .ok s := by
  have hoptions : Takes style (documentField 127 {} "options") (.object s.jsonMembers) s := by
    rw [documentField, if_pos rfl]
    exact takes_optionsValue hs (by decide) s
  exact (takes_recordValue hs (by decide) (.cons hoptions (.nil s)) (List.nodup_singleton _)).run

/-- What is saved, in a style, for the settings that a text holds. -/
def rewritten (style : Style) (text : List UInt8) : Except ReadError (List UInt8) :=
  (read text).map (written style)

end Settings

/-! ## Files -/

/-- Writing the same bytes once more changes nothing. -/
theorem FileTree.write_of_write {t written : FileTree} {outDir : Path} {stem : String}
    (hname : IsFileName (stem ++ ".json")) {content : List UInt8}
    (h : t.write (outDir.join (stem ++ ".json")) content = .ok written) :
    written.write (outDir.join (stem ++ ".json")) content = .ok written := by
  obtain ⟨dir, hfollow, hdir, hfree, hwritten, -⟩ := of_write_join hname h
  have holds := (t.holds_self outDir).putAt hfollow hdir hfree content
  rw [← hwritten] at holds
  have hsame : written.putAt (dir ++ [stem ++ ".json"]) (.file content) = written := by
    rw [hwritten, putAt, putAt, Node.put_put]
  rw [holds.write_eq hname, h]
  simp only [Except.bind, bind, hfollow, hsame]
  rfl

namespace Settings

/-- What a settings file holds decides what is loaded. -/
theorem load_eq_of_read {t : FileTree} {root : Path} {text : List UInt8}
    (h : t.read (file root) = .ok text) :
    load t root = ((read text).mapError (.parse (file root)), []) := by
  have hexists : t.pathExists (file root) = true := by
    rw [FileTree.pathExists]
    rw [FileTree.read] at h
    cases hfind : t.find (file root) with
    | error reason =>
      rw [hfind] at h
      cases h
    | ok node => rfl
  simp only [load, hexists, h]
  cases read text <;> rfl

theorem load_of_read {t : FileTree} {root : Path} {text : List UInt8} {s : Settings}
    (h : t.read (file root) = .ok text) (hread : read text = .ok s) :
    load t root = (.ok s, []) := by
  rw [load_eq_of_read h, hread]
  rfl

/-- Saving settings is lossless. In any style, of which compact and indented text are two, they are
read back as they were, so a project that can have a settings file loads what has been saved in it,
and saving that again changes nothing. Loading a text and saving it settles at once, for the
document and for the plan of any project; a text that is refused is refused either way. -/
theorem load_saved {style : Style} (hs : style.Blank) (root : Path) :
    (∀ s : Settings, read (s.written style) = .ok s ∧
      s.written .compact = utf8 s.toJson.compact ∧ s.written .indented = utf8 s.toJson.indented) ∧
      (∀ (t : FileTree) (s : Settings),
        (∃ reason, ∀ bytes, t.write (file root) bytes = .error reason) ∨
          ∃ saved, t.write (file root) (s.written style) = .ok saved ∧
            load saved root = (.ok s, []) ∧
            saved.write (file root) (s.written style) = .ok saved) ∧
      ∀ text : List UInt8,
        (rewritten style text).bind (rewritten style) = rewritten style text ∧
          (rewritten style text).bind (fun again => (read again).map (resolve · root)) =
            (read text).map (resolve · root) := by
  refine ⟨fun s => ⟨read_written hs s, s.written_compact, s.written_indented⟩, fun t s => ?_,
    fun text => ?_⟩
  · cases hwrite : t.write (file root) (s.written style) with
    | error reason => exact .inl ⟨reason, FileTree.write_of_error hwrite⟩
    | ok saved =>
      have hname : IsFileName ("ischema" ++ ".json") := isFileName_settings
      have hload := load_of_read (FileTree.read_of_write hname hwrite) (read_written hs s)
      exact .inr ⟨saved, rfl, hload, FileTree.write_of_write hname hwrite⟩
  · cases hread : read text with
    | error reason => simp only [rewritten, hread, Except.map, Except.bind, and_self]
    | ok s => simp only [rewritten, hread, Except.map, Except.bind, read_written hs, and_self]

/-- Settings with characters that are escaped and with the greatest number, in a directory without
settings. -/
theorem load_saved_escapes :
    let s : Settings := {
      rootDir := "a\"\\\n\x01é", maxFileSize := 18446744073709551615, placement := .uniform
      filter := { extensions := [], skipHidden := true }, grammar := { startMarker := "" } }
    let t : FileTree := ⟨.emptyDirectory, []⟩
    let saved := t.putAt ["ischema.json"] (.file (utf8 s.toJson.compact))
    t.write (file ⟨"."⟩) (utf8 s.toJson.compact) = .ok saved ∧ load saved ⟨"."⟩ = (.ok s, []) := by
  intro s t saved
  have hwrite : t.write (file ⟨"."⟩) (utf8 s.toJson.compact) = .ok saved := rfl
  obtain ⟨hread, hsaved, -⟩ := load_saved Style.blank_compact ⟨"."⟩
  have hstep := hsaved t s
  rw [(hread s).2.1] at hstep
  rcases hstep with ⟨_, hfailed⟩ | ⟨_, hok, hload, -⟩
  · cases hwrite.symm.trans (hfailed _)
  · cases hwrite.symm.trans hok
    exact ⟨hwrite, hload⟩

end Settings

end InterfaceSchema
