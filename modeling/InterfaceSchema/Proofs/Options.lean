import InterfaceSchema.Proofs.SavedSettings
import InterfaceSchema.Proofs.Settling

/-!
# Options one after the other

What an option makes of settings, it makes of the default ones in its own field. An option that is
read directly is put in its field at once. The fields of the grammar are picked from what is left
over when all options have been read, but they too are picked one after the other, so it is as if
each of them had been picked when it was read.

## Main definitions

* `Settings.assembled` — settings that have the field of each option from others.
* `Settings.alone?` — the settings in which a single option is chosen.
-/

namespace InterfaceSchema

open Json Json.Reader

/-! ## Placements -/

namespace SignaturePlacement

variable {w : List UInt8}

theorem attempt_nameValue {body : List UInt8} (h : StringBody body) (rest : List UInt8) :
    nameValue.attempt (0x22 :: (body ++ 0x22 :: rest)) =
      ((stringBody.result? (body ++ [0x22])).bind ofName?).map (·, rest) := by
  rw [nameValue, attempt_bind, attempt_skip, Option.bind_some, List.tail_cons, attempt_bind,
    attempt_stringBody h]
  cases stringBody.result? (body ++ [0x22]) with
  | none => rfl
  | some name =>
    simp only [Option.map_some, Option.bind_some]
    cases ofName? name <;> rfl

/-- Take what follows the name of a placement in an object, which has to be its only member. -/
def closing (p : SignaturePlacement) : Reader SignaturePlacement := do
  colon
  unitValue
  match ← peekToken? with
  | some '\x7d' => skip; return p
  | some _ => failAfter .expectedValue
  | none => failAfter .endInObject

theorem attempt_closing {m : Member} (hm : m.Spaced) (hvalue : IsValue m.value)
    (more : List Member) (p : SignaturePlacement) (rest : List UInt8) :
    (closing p).attempt (m.middle ++ 0x3A :: (m.inner ++ (m.value ++ (m.after ++
      (further (more.map Member.text) ++ 0x7D :: rest))))) =
        if more = [] then (unitValue.result? m.value).map fun _ => (p, rest) else none := by
  have hone := settles_unitValue hvalue m.inner _ hm.inner (stops_gap hm.after
    (stops_further (more.map Member.text) (by decide : isDigit 0x7D = false ∧ _) rest))
  rw [closing, attempt_bind, attempt_colon hm.middle, Option.bind_some, attempt_bind, hone]
  cases unitValue.result? m.value with
  | none => simp
  | some u =>
    simp only [Option.map_some, Option.bind_some]
    rw [attempt_bind_peekToken?_gap hm.after]
    cases more with
    | nil => rfl
    | cons n more => rfl

/-- The placement that an object with the given members stands for: it has one member, with the
name as its key. -/
def ofMembers? : List Member → Option SignaturePlacement
  | [m] => ((stringBody.result? (m.key ++ [0x22])).bind ofName?).bind fun p =>
    (unitValue.result? m.value).map fun _ => p
  | _ => none

theorem attempt_jsonValue_object {depth : Nat} (hdepth : 1 < depth) {gap : List UInt8}
    (hgap : Blank gap) {ms : List Member} (hms : ∀ m ∈ ms, m.Spaced ∧ StringBody m.key)
    (hvalues : ∀ m ∈ ms, IsValue m.value) (rest : List UInt8) :
    (jsonValue depth).attempt (0x7B :: (listed gap (ms.map Member.text) ++ 0x7D :: rest)) =
      (ofMembers? ms).map (·, rest) := by
  rw [jsonValue, attempt_token (by decide)]
  change (enter depth >>= fun _ => _).attempt _ = _
  rw [attempt_bind, attempt_of_eq (enter_cons hdepth _ _), Option.bind_some, attempt_bind]
  cases ms with
  | nil =>
    have hend := (hasKey_gap hgap true (0x7D :: rest)).trans (hasKey_close true rest)
    rw [List.map_nil, listed, attempt_of_eq hend]
    rfl
  | cons m more =>
    obtain ⟨⟨hm, hkey⟩, -⟩ := List.forall_mem_cons.1 hms
    have hgoes : hasKey true (listed gap ((m :: more).map Member.text) ++ 0x7D :: rest) =
        .ok (true, 0x22 :: (m.key ++ 0x22 :: (m.middle ++ 0x3A :: (m.inner ++ (m.value ++
          (m.after ++ (further (more.map Member.text) ++ 0x7D :: rest))))))) := by
      rw [List.map_cons, listed, Member.text, List.append_assoc, List.append_assoc,
        hasKey_gap hm.before, hasKey_body]
      simp [Member.body]
    have hclosing (p : SignaturePlacement) :=
      attempt_closing hm (hvalues m List.mem_cons_self) more p rest
    rw [attempt_of_eq hgoes, Option.bind_some, if_pos rfl, attempt_bind, attempt_nameValue hkey]
    cases more with
    | nil =>
      rw [ofMembers?]
      cases (stringBody.result? (m.key ++ [0x22])).bind ofName? with
      | none => rfl
      | some p =>
        refine (hclosing p).trans ?_
        rw [if_pos rfl]
        cases unitValue.result? m.value <;> rfl
    | cons n more =>
      cases (stringBody.result? (m.key ++ [0x22])).bind ofName? with
      | none => rfl
      | some p => exact hclosing p

theorem settles_jsonValue (depth : Nat) (h : IsValue w) : Settles (jsonValue depth) w := by
  refine settles_of_kind h (fun c => c == '"' || c == '\x7b') (fun c hc => ?_) fun hstart => ?_
  · split
    · simp_all
    · simp_all
    · simp_all
    · exact fun _ => rfl
  · cases h with
    | @string body h =>
      refine settles_of_token
        ⟨(stringBody.result? (body ++ [0x22])).bind ofName?, fun rest _ => ?_⟩
      rw [List.cons_append, List.append_assoc, List.singleton_append, attempt_token (by decide)]
      exact attempt_nameValue h rest
    | @object gap ms hgap hms h =>
      by_cases hdepth : 1 < depth
      · refine settles_of_token ⟨ofMembers? ms, fun rest _ => ?_⟩
        rw [List.cons_append, List.append_assoc, List.singleton_append]
        exact attempt_jsonValue_object hdepth hgap hms h rest
      · exact settles_of_refused (by decide) (attempt_enter_bind hdepth _)
    | number h => exact absurd hstart (h.not_beginsWith (by decide))
    | _ => exact absurd (beginsWith_cons.1 hstart) (by decide)

end SignaturePlacement

namespace Settings

/-! ## Fields -/

/-- The settings that have the field of each option from the settings given under its name. -/
def assembled (own : String → Settings) : Settings where
  rootDir := (own "rootDir").rootDir
  outDir := (own "outDir").outDir
  filter :=
    { extensions := (own "extensions").filter.extensions
      skipDirs := (own "skipDirs").filter.skipDirs
      skipHidden := (own "skipHidden").filter.skipHidden }
  maxFileSize := (own "maxFileSize").maxFileSize
  placement := (own "indexEncoding").placement
  grammar :=
    { startMarker := (own "startMarker").grammar.startMarker
      endMarker := (own "endMarker").grammar.endMarker
      indexOpener := (own "indexOpener").grammar.indexOpener }

/-- The names of all options. -/
def optionNames : List String := fieldNames ++ Grammar.fieldNames

/-- The settings with the field of one option from others. A name that is no option's changes
nothing. -/
def withField (s : Settings) (name : String) (other : Settings) : Settings :=
  assembled (Function.update (fun _ => s) name other)

theorem assembled_const (s : Settings) : assembled (fun _ => s) = s := rfl

/-- Whether something is the field of an option, which settings that are put together have from
the settings under its name. -/
structure IsField {α : Type} (name : String) (get : Settings → α) : Prop where
  mem : name ∈ optionNames
  get_assembled : ∀ own : String → Settings, get (assembled own) = get (own name)

theorem assembled_congr {a b : String → Settings}
    (h : ∀ (α : Type) (name : String) (get : Settings → α), IsField name get →
      get (a name) = get (b name)) : assembled a = assembled b := by
  simp only [assembled, h _ "rootDir" rootDir ⟨by decide, fun _ => rfl⟩,
    h _ "outDir" outDir ⟨by decide, fun _ => rfl⟩,
    h _ "extensions" (·.filter.extensions) ⟨by decide, fun _ => rfl⟩,
    h _ "skipDirs" (·.filter.skipDirs) ⟨by decide, fun _ => rfl⟩,
    h _ "skipHidden" (·.filter.skipHidden) ⟨by decide, fun _ => rfl⟩,
    h _ "maxFileSize" maxFileSize ⟨by decide, fun _ => rfl⟩,
    h _ "indexEncoding" placement ⟨by decide, fun _ => rfl⟩,
    h _ "startMarker" (·.grammar.startMarker) ⟨by decide, fun _ => rfl⟩,
    h _ "endMarker" (·.grammar.endMarker) ⟨by decide, fun _ => rfl⟩,
    h _ "indexOpener" (·.grammar.indexOpener) ⟨by decide, fun _ => rfl⟩]

theorem assembled_congr_of_mem {a b : String → Settings}
    (h : ∀ name ∈ optionNames, a name = b name) : assembled a = assembled b :=
  assembled_congr fun _ name get hget => congrArg get (h name hget.mem)

theorem withField_assembled (a : String → Settings) (name : String) (other : Settings) :
    (assembled a).withField name other = assembled (Function.update a name other) := by
  refine assembled_congr fun _ field get hget => ?_
  by_cases hfield : field = name
  · rw [hfield, Function.update_self, Function.update_self]
  · rw [Function.update_of_ne hfield, Function.update_of_ne hfield]
    exact hget.get_assembled a

section Own

theorem settles_stringList {w : List UInt8} (depth : Nat) (h : IsValue w) :
    Settles (stringList depth) w :=
  settles_listOf (fun _ => settles_stringValue .string) depth h

/-- Every field that is read directly has a reader of its own and is then put in its place. -/
theorem exists_ownField (depth : Nat) {name : String} (hname : name ∈ fieldNames) :
    ∃ (α : Type) (reader : Reader α) (put : Settings → α → Settings),
      (∀ s, ownField depth s name = do return put s (← reader)) ∧
        (∀ s v, put s v = s.withField name (put {} v)) ∧ ∀ w, IsValue w → Settles reader w := by
  simp only [fieldNames, List.mem_cons, List.not_mem_nil, or_false] at hname
  rcases hname with rfl | rfl | rfl | rfl | rfl | rfl | rfl
  · exact ⟨_, _, fun s dir => { s with rootDir := dir }, fun _ => rfl, fun _ _ => rfl,
      fun _ => settles_stringValue .path⟩
  · exact ⟨_, _, fun s dir => { s with outDir := dir }, fun _ => rfl, fun _ _ => rfl,
      fun _ => settles_stringValue .path⟩
  · exact ⟨_, _, fun s l => { s with filter := { s.filter with extensions := l } }, fun _ => rfl,
      fun _ _ => rfl, fun _ => settles_stringList depth⟩
  · exact ⟨_, _, fun s l => { s with filter := { s.filter with skipDirs := l } }, fun _ => rfl,
      fun _ _ => rfl, fun _ => settles_stringList depth⟩
  · exact ⟨_, _, fun s b => { s with filter := { s.filter with skipHidden := b } }, fun _ => rfl,
      fun _ _ => rfl, fun _ => settles_boolValue⟩
  · exact ⟨_, _, fun s n => { s with maxFileSize := n }, fun _ => rfl, fun _ _ => rfl,
      fun _ => settles_unsignedValue⟩
  · exact ⟨_, _, fun s p => { s with placement := p }, fun _ => rfl, fun _ _ => rfl,
      fun _ => SignaturePlacement.settles_jsonValue depth⟩

/-- A field that is read directly is none of the grammar. -/
theorem withField_grammar {name : String} (hname : name ∈ fieldNames) (s other : Settings)
    (g : Grammar) :
    (s.withField name other).grammar = s.grammar ∧
      { s.withField name other with grammar := g } =
        { s with grammar := g }.withField name other := by
  simp only [fieldNames, List.mem_cons, List.not_mem_nil, or_false] at hname
  rcases hname with rfl | rfl | rfl | rfl | rfl | rfl | rfl <;> exact ⟨rfl, rfl⟩

theorem withField_of_not_mem {name : String} (hname : name ∉ optionNames) (s other : Settings) :
    s.withField name other = s := by
  have hsame : ∀ field ∈ optionNames, Function.update (fun _ => s) name other field = s :=
    fun field hfield => by rw [Function.update_of_ne (ne_of_mem_of_not_mem hfield hname)]
  exact (assembled_congr_of_mem hsame).trans (assembled_const s)

end Own

/-! ## Drafts -/

/-- The settings of a draft, with the fields of the grammar picked from the other members. -/
def Draft.finished? (d : Draft) : Option Settings :=
  (pickGrammar [] d.settings.grammar d.others.reverse).toOption.map fun g =>
    { d.settings with grammar := g }

/-- The settings in which one option is chosen. -/
def alone? (depth : Nat) (e : String × List UInt8) : Option Settings :=
  ((field depth ⟨{}, []⟩ e.1).result? e.2).bind Draft.finished?

section Drafts

/-- A further member of another name is picked by itself. -/
theorem pickGrammar_append {seen : List String} {g : Grammar} {name : String} (v : Json)
    {l : List (String × Json)} (hseen : name ∉ seen) (hnew : name ∉ l.map Prod.fst) :
    pickGrammar seen g (l ++ [(name, v)]) =
      (pickGrammar seen g l).bind fun g => pickGrammar [] g [(name, v)] := by
  induction l generalizing seen g with
  | nil =>
    by_cases hfield : name ∈ Grammar.fieldNames
    · simp only [List.nil_append, pickGrammar, if_pos hfield, if_neg hseen, Except.bind,
        List.not_mem_nil, if_false]
    · simp only [List.nil_append, pickGrammar, if_neg hfield, Except.bind]
  | cons m l ih =>
    obtain ⟨other, u⟩ := m
    rw [List.map_cons, List.mem_cons, not_or] at hnew
    rw [List.cons_append, pickGrammar.eq_def, pickGrammar.eq_def seen g ((other, u) :: l)]
    dsimp only
    split_ifs with hfield hdouble
    · rfl
    · cases u with
      | string s => exact ih (by simp [hseen, hnew.1]) hnew.2
      | _ => rfl
    · exact ih hseen hnew.2

/-- What a single other member makes of settings, it makes of the default ones in its own field. -/
theorem finished?_singleton {name : String} (hname : name ∉ fieldNames) (v : Json)
    (s : Settings) :
    Draft.finished? ⟨s, [(name, v)]⟩ =
      (Draft.finished? ⟨{}, [(name, v)]⟩).map (s.withField name) := by
  by_cases hfield : name ∈ Grammar.fieldNames
  · simp only [Grammar.fieldNames, List.mem_cons, List.not_mem_nil, or_false] at hfield
    cases v with
    | string _ => rcases hfield with rfl | rfl | rfl <;> rfl
    | _ => rcases hfield with rfl | rfl | rfl <;> rfl
  · have hnone : name ∉ optionNames := by
      rw [optionNames, List.mem_append, not_or]
      exact ⟨hname, hfield⟩
    simp only [Draft.finished?, List.reverse_singleton, pickGrammar, if_neg hfield,
      Except.toOption, Option.map_some, withField_of_not_mem hnone]

theorem settles_field (depth : Nat) (d : Draft) (name : String) {w : List UInt8}
    (h : IsValue w) : Settles (field depth d name) w := by
  by_cases hname : name ∈ fieldNames
  · obtain ⟨α, reader, put, hown, -, hsettles⟩ := exists_ownField depth hname
    simp only [field, if_pos hname, hown]
    exact ((hsettles w h).map (put d.settings)).map fun s => { d with settings := s }
  · simp only [field, if_neg hname]
    exact (settles_value h (depth - 1)).map fun v => { d with others := (name, v) :: d.others }

section

variable {depth : Nat} {d : Draft} {name : String} {w : List UInt8}

/-- A field that is read directly is put in its place at once, and the pick that follows does not
see it. -/
theorem finished?_ownField (hname : name ∈ fieldNames) :
    ((field depth d name).result? w).bind Draft.finished? =
      d.finished?.bind fun s => (alone? depth (name, w)).map (s.withField name) := by
  obtain ⟨α, reader, put, hown, hput, -⟩ := exists_ownField depth hname
  have hread (d : Draft) : (field depth d name).result? w =
      (reader.result? w).map fun v => { d with settings := put d.settings v } := by
    simp only [field, if_pos hname, hown, result?_map, Option.map_map]
    rfl
  have halone : alone? depth (name, w) = (reader.result? w).map (put {}) := by
    rw [alone?, hread]
    cases reader.result? w <;> rfl
  rw [hread, halone]
  cases reader.result? w with
  | none => simp
  | some v =>
    have hgrammar (g : Grammar) := withField_grammar hname d.settings (put {} v) g
    simp only [Option.map_some, Option.bind_some, Draft.finished?, hput d.settings v,
      (hgrammar {}).1, fun g => (hgrammar g).2]
    cases (pickGrammar [] d.settings.grammar d.others.reverse).toOption <;> rfl

/-- Any other option waits among the others of its draft, where it is picked last. -/
theorem finished?_otherField (hname : name ∉ fieldNames) (hnew : name ∉ d.others.map Prod.fst) :
    ((field depth d name).result? w).bind Draft.finished? =
      d.finished?.bind fun s => (alone? depth (name, w)).map (s.withField name) := by
  have hread (d : Draft) : (field depth d name).result? w =
      ((anyValue depth).result? w).map fun v => { d with others := (name, v) :: d.others } := by
    simp only [field, if_neg hname, result?_map]
  have halone : alone? depth (name, w) =
      ((anyValue depth).result? w).bind fun v => Draft.finished? ⟨{}, [(name, v)]⟩ := by
    rw [alone?, hread]
    cases (anyValue depth).result? w <;> rfl
  rw [hread, halone]
  cases (anyValue depth).result? w with
  | none => simp
  | some v =>
    simp only [Option.map_some, Option.bind_some, Draft.finished?, List.reverse_cons]
    rw [pickGrammar_append v List.not_mem_nil (by simpa using hnew)]
    have hone := finished?_singleton hname v
    cases pickGrammar [] d.settings.grammar d.others.reverse with
    | error fault => rfl
    | ok g => exact hone { d.settings with grammar := g }

/-- An option that is new to a draft makes of its settings what it makes of the default ones, in
its own field. -/
theorem finished?_field (hnew : name ∉ d.others.map Prod.fst) :
    ((field depth d name).result? w).bind Draft.finished? =
      d.finished?.bind fun s => (alone? depth (name, w)).map (s.withField name) := by
  by_cases hname : name ∈ fieldNames
  · exact finished?_ownField hname
  · exact finished?_otherField hname hnew

end

theorem others_field {depth : Nat} {d next : Draft} {e : String × List UInt8}
    (h : (field depth d e.1).result? e.2 = some next) :
    next.others.map Prod.fst ⊆ e.1 :: d.others.map Prod.fst := by
  by_cases hname : e.1 ∈ fieldNames
  · simp only [field, if_pos hname, result?_map, Option.map_eq_some_iff] at h
    obtain ⟨s, -, rfl⟩ := h
    exact List.subset_cons_self _ _
  · simp only [field, if_neg hname, result?_map, Option.map_eq_some_iff] at h
    obtain ⟨v, -, rfl⟩ := h
    exact List.Subset.refl _

/-- Options that are new to a draft are chosen one after the other, each as if it were alone. -/
theorem finished?_recorded? (depth : Nat) {d : Draft} {entries : List (String × List UInt8)}
    (hdistinct : (entries.map Prod.fst).Nodup)
    (hnew : ∀ e ∈ entries, e.1 ∉ d.others.map Prod.fst) :
    (recorded? (field depth) d entries).bind Draft.finished? =
      d.finished?.bind fun s =>
        entries.foldlM (fun s e => (alone? depth e).map (s.withField e.1)) s := by
  induction entries generalizing d with
  | nil => simp [recorded?]
  | cons e entries ih =>
    rw [List.map_cons, List.nodup_cons] at hdistinct
    obtain ⟨he, hnew⟩ := List.forall_mem_cons.1 hnew
    -- the induction runs before the draft is finished, so what follows is finished first
    have hrest : ((field depth d e.1).result? e.2).bind
        (fun next => (recorded? (field depth) next entries).bind Draft.finished?) =
          ((field depth d e.1).result? e.2).bind fun next => next.finished?.bind fun s =>
            entries.foldlM (fun s e => (alone? depth e).map (s.withField e.1)) s := by
      refine Option.bind_congr fun next hnext => ih hdistinct.2 fun o ho hmem => ?_
      rcases List.mem_cons.1 (others_field hnext hmem) with heq | hmem
      · exact hdistinct.1 (heq ▸ List.mem_map_of_mem ho)
      · exact hnew o ho hmem
    calc (recorded? (field depth) d (e :: entries)).bind Draft.finished?
        = ((field depth d e.1).result? e.2).bind
            fun next => (recorded? (field depth) next entries).bind Draft.finished? := by
          rw [recorded?, List.foldlM_cons]
          exact Option.bind_assoc _ _ _
      _ = (((field depth d e.1).result? e.2).bind Draft.finished?).bind fun s =>
            entries.foldlM (fun s e => (alone? depth e).map (s.withField e.1)) s := by
          rw [hrest, Option.bind_assoc]
      _ = d.finished?.bind fun s =>
            (e :: entries).foldlM (fun s e => (alone? depth e).map (s.withField e.1)) s := by
          rw [finished?_field he, Option.bind_assoc]
          simp only [List.foldlM_cons]
          rfl

end Drafts

/-! ## Options one after the other -/

section Chosen

/-- Options of different names are chosen exactly if each can be, and the settings then have the
field of each from the settings in which it is chosen. -/
theorem foldlM_withField_eq_some_iff {chosen : String × List UInt8 → Option Settings}
    {entries : List (String × List UInt8)} (hdistinct : (entries.map Prod.fst).Nodup)
    {before : String → Settings} {s : Settings} :
    entries.foldlM (fun s e => (chosen e).map (s.withField e.1)) (assembled before) = some s ↔
      ∃ own : String → Settings, (∀ e ∈ entries, chosen e = some (own e.1)) ∧
        (∀ name ∉ entries.map Prod.fst, own name = before name) ∧ s = assembled own := by
  induction entries generalizing before with
  | nil =>
    constructor
    · intro h
      exact ⟨before, by simp, fun _ _ => rfl, (Option.some_inj.1 h).symm⟩
    · rintro ⟨own, -, hbefore, rfl⟩
      exact congrArg (some ∘ assembled) (funext fun name => (hbefore name (by simp)).symm)
  | cons e entries ih =>
    rw [List.map_cons, List.nodup_cons] at hdistinct
    rw [List.foldlM_cons]
    cases hchosen : chosen e with
    | none =>
      constructor
      · rintro ⟨⟩
      · rintro ⟨own, hown, -, -⟩
        cases hchosen.symm.trans (hown e List.mem_cons_self)
    | some t =>
      simp only [Option.map_some, Option.bind_eq_bind, Option.bind_some, withField_assembled]
      rw [ih hdistinct.2]
      refine exists_congr fun own => ⟨?_, ?_⟩
      · rintro ⟨hown, hbefore, hs⟩
        have he : own e.1 = t := by rw [hbefore e.1 hdistinct.1, Function.update_self]
        refine ⟨List.forall_mem_cons.2 ⟨by rw [hchosen, he], hown⟩, fun name hname => ?_, hs⟩
        rw [List.map_cons, List.mem_cons, not_or] at hname
        rw [hbefore name hname.2, Function.update_of_ne hname.1]
      · rintro ⟨hown, hbefore, hs⟩
        obtain ⟨he, hown⟩ := List.forall_mem_cons.1 hown
        refine ⟨hown, fun name hname => ?_, hs⟩
        by_cases heq : name = e.1
        · rw [heq, Function.update_self]
          exact (Option.some_inj.1 (hchosen.symm.trans he)).symm
        · rw [Function.update_of_ne heq]
          exact hbefore name (by simp [heq, hname])

theorem exists_foldlM_withField_iff {chosen : String × List UInt8 → Option Settings}
    {entries : List (String × List UInt8)} {start : Settings} :
    (∃ s, entries.foldlM (fun s e => (chosen e).map (s.withField e.1)) start = some s) ↔
      ∀ e ∈ entries, ∃ s, chosen e = some s := by
  induction entries generalizing start with
  | nil => simp
  | cons e entries ih =>
    rw [List.foldlM_cons, List.forall_mem_cons]
    cases chosen e with
    | none => simp
    | some t => simp [ih]

end Chosen

end Settings

end InterfaceSchema
