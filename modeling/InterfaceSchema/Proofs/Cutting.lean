import InterfaceSchema.Declaration
import Mathlib.Data.List.DropRight
import Mathlib.Tactic.Common

/-!
# Cutting and trimming

Laws of the operations that take a text apart: splitting at a separator, removing an ending, and the
plain form in which the lines of a text are looked at.

## Main definitions

* `words` — the pieces of a text between separators that are not empty.
* `plainLine` — the plain form of one line.
* `Bare` — texts without blank characters; lines are written from them.
* `Blanks` — texts of blank characters on one line.
-/

namespace InterfaceSchema

/-- What is said of all characters of a text is decided by going through the text. -/
instance decidableForallChar (P : Char → Prop) [DecidablePred P] (cs : List Char) :
    Decidable (∀ c ∈ cs, P c) :=
  List.decidableBAll P cs

/-! ## Splitting -/

theorem splitAt_eq_splitOn {α : Type} [DecidableEq α] (sep : α) (cs : List α) :
    splitAt sep cs = cs.splitOn sep := by
  induction cs with
  | nil => rfl
  | cons c cs ih =>
    rw [List.splitOn_cons_eq_if_modifyHead, ← ih]
    by_cases h : c = sep
    · simp [splitAt, h]
    · cases hs : splitAt sep cs with
      | nil => exact absurd (ih ▸ hs) (List.splitOn_ne_nil sep cs)
      | cons piece rest =>
        simp only [splitAt] at hs
        simp [splitAt, h, hs]

/-- A piece between separators is made of the other characters of the text. -/
theorem of_mem_splitAt {sep : Char} {cs piece : List Char} (h : piece ∈ splitAt sep cs) :
    ∀ c ∈ piece, c ≠ sep ∧ c ∈ cs := by
  induction cs generalizing piece with
  | nil => simp_all [splitAt]
  | cons d cs ih =>
    rw [splitAt_eq_splitOn, List.splitOn_cons_eq_if_modifyHead, ← splitAt_eq_splitOn] at h
    split_ifs at h with hd
    · grind
    · generalize splitAt sep cs = pieces at h ih
      cases pieces with
      | nil => cases h
      | cons first rest =>
        rw [List.modifyHead_cons] at h
        grind

/-- The pieces between separators that are not empty. -/
def words (sep : Char) (cs : List Char) : List String :=
  ((cs.splitOn sep).filter (!·.isEmpty)).map String.ofList

@[simp] theorem words_nil (sep : Char) : words sep [] = [] := rfl

/-- The words on both sides of a separator do not touch each other. -/
theorem words_append_cons (sep : Char) (cs ds : List Char) :
    words sep (cs ++ sep :: ds) = words sep cs ++ words sep ds := by
  rw [words, List.splitOn_append_cons_self, List.filter_append, List.map_append]
  rfl

theorem words_of_not_mem {sep : Char} {cs : List Char} (h : sep ∉ cs) (hne : cs ≠ []) :
    words sep cs = [String.ofList cs] := by
  have hfilter : [cs].filter (!·.isEmpty) = [cs] := by simpa using hne
  rw [words, List.splitOn_eq_singleton h, hfilter, List.map_singleton]

/-- Separators at the front of a text are in no word. -/
theorem words_append_left {sep : Char} {gap : List Char} (hgap : ∀ c ∈ gap, c = sep)
    (cs : List Char) : words sep (gap ++ cs) = words sep cs := by
  induction gap with
  | nil => rfl
  | cons c gap ih =>
    obtain ⟨rfl, hgap⟩ := List.forall_mem_cons.1 hgap
    have hfirst : words c (c :: (gap ++ cs)) = words c (gap ++ cs) := words_append_cons c [] _
    rw [List.cons_append, hfirst, ih hgap]

/-- A gap of separators parts the words around it, however long it is. -/
theorem words_append_gap {sep : Char} {gap : List Char} (hgap : ∀ c ∈ gap, c = sep)
    (hne : gap ≠ []) (cs ds : List Char) :
    words sep (cs ++ gap ++ ds) = words sep cs ++ words sep ds := by
  obtain ⟨c, rest, rfl⟩ := List.exists_cons_of_ne_nil hne
  obtain ⟨rfl, hrest⟩ := List.forall_mem_cons.1 hgap
  rw [List.append_assoc, List.cons_append, words_append_cons, words_append_left hrest]

/-- Separators at the end of a text are in no word. -/
theorem words_append_right {sep : Char} {gap : List Char} (hgap : ∀ c ∈ gap, c = sep)
    (cs : List Char) : words sep (cs ++ gap) = words sep cs := by
  rcases eq_or_ne gap [] with rfl | hne
  · rw [List.append_nil]
  · simpa using words_append_gap hgap hne cs []

/-- A text that does not begin with a separator begins with its first word. -/
theorem exists_head?_words {sep : Char} {cs : List Char} (hne : cs ≠ [])
    (hhead : cs.head? ≠ some sep) :
    ∃ word ∈ (words sep cs).head?, word ≠ "" ∧ word.toList <+: cs := by
  by_cases h : sep ∈ cs
  · obtain ⟨front, back, rfl, hfront⟩ := List.eq_append_cons_of_mem h
    have hnil : front ≠ [] := by
      rintro rfl
      simp at hhead
    refine ⟨String.ofList front, ?_, by simpa using hnil, by simp⟩
    simp [words_append_cons, words_of_not_mem hfront hnil]
  · refine ⟨String.ofList cs, ?_, by simpa using hne, by simp⟩
    simp [words_of_not_mem h hne]

/-- A text that does not end with a separator ends with its last word. -/
theorem exists_getLast?_words {sep : Char} {cs : List Char} (hne : cs ≠ [])
    (hlast : cs.getLast? ≠ some sep) :
    ∃ word ∈ (words sep cs).getLast?, word ≠ "" ∧ word.toList <:+ cs := by
  by_cases h : sep ∈ cs
  · obtain ⟨back, front, hcs, hback⟩ := List.eq_append_cons_of_mem (List.mem_reverse.2 h)
    obtain rfl : cs = front.reverse ++ sep :: back.reverse := by
      rw [← List.reverse_reverse cs, hcs]
      simp
    have hnil : back.reverse ≠ [] := by
      intro hnil
      simp [hnil] at hlast
    have hsuffix : back.reverse <:+ front.reverse ++ sep :: back.reverse :=
      (List.suffix_cons _ _).trans (List.suffix_append _ _)
    refine ⟨String.ofList back.reverse, ?_, by simpa using hnil, by simpa using hsuffix⟩
    rw [words_append_cons, words_of_not_mem (by simpa using hback) hnil]
    simp
  · refine ⟨String.ofList cs, ?_, by simpa using hne, by simp⟩
    simp [words_of_not_mem h hne]

theorem lineTokens_eq (line : String) : lineTokens line = words ' ' line.toList := by
  rw [lineTokens, splitAt_eq_splitOn]
  rfl

/-- A token of a line is a word in characters of the line other than the space. -/
theorem of_mem_lineTokens {line token : String} (h : token ∈ lineTokens line) :
    token ≠ "" ∧ ∀ c ∈ token.toList, c ≠ ' ' ∧ c ∈ line.toList := by
  obtain ⟨piece, hpiece, rfl⟩ := List.mem_map.1 h
  obtain ⟨hmem, hne⟩ := List.mem_filter.1 hpiece
  refine ⟨by simpa using hne, ?_⟩
  rw [String.toList_ofList]
  exact of_mem_splitAt hmem

/-! ## Endings -/

/-- An ending can be removed exactly from the texts that it was put behind. -/
theorem stripSuffix?_eq_some_iff {ending s x : String} :
    stripSuffix? ending s = some x ↔ s = x ++ ending := by
  unfold stripSuffix?
  constructor
  · intro h
    split at h
    · next hs =>
      obtain ⟨before, hb⟩ := List.isSuffixOf_iff_suffix.1 hs
      have hx : x.toList = before := by
        rw [← Option.some.inj h, ← hb]
        simp
      apply String.toList_injective
      rw [String.toList_append, hx, hb]
    · exact absurd h (by simp)
  · rintro rfl
    simp [List.isSuffixOf_iff_suffix]

@[simp] theorem stripSuffix?_append (ending x : String) :
    stripSuffix? ending (x ++ ending) = some x :=
  stripSuffix?_eq_some_iff.2 rfl

/-! ## Lines -/

/-- A text that holds no blank character. -/
def Bare (s : String) : Prop :=
  ∀ c ∈ s.toList, isBlank c = false

instance (s : String) : Decidable (Bare s) :=
  inferInstanceAs (Decidable (∀ c ∈ s.toList, isBlank c = false))

theorem Bare.append {s t : String} (hs : Bare s) (ht : Bare t) : Bare (s ++ t) := by
  intro c hc
  rw [String.toList_append, List.mem_append] at hc
  exact hc.elim (hs c) (ht c)

theorem Bare.not_mem {s : String} (hs : Bare s) {c : Char} (hc : isBlank c = true) :
    c ∉ s.toList := by
  intro h
  rw [hs c h] at hc
  exact Bool.false_ne_true hc

/-- The plain form of one line: tabs as spaces, without carriage returns, trimmed. -/
def plainLine (line : String) : String :=
  String.ofList (trim (plain line.toList))

theorem plain_append (cs ds : List Char) : plain (cs ++ ds) = plain cs ++ plain ds :=
  List.filterMap_append

theorem plain_cons (c : Char) (cs : List Char) :
    plain (c :: cs) =
      if c = '\t' then ' ' :: plain cs else if c = '\r' then plain cs else c :: plain cs := by
  unfold plain
  rw [List.filterMap_cons]
  split_ifs <;> rfl

/-- Making lines plain neither joins nor breaks them. -/
theorem splitOn_plain (cs : List Char) :
    (plain cs).splitOn '\n' = (cs.splitOn '\n').map plain := by
  induction cs with
  | nil => rfl
  | cons c cs ih =>
    obtain ⟨piece, rest, hcs⟩ := List.exists_cons_of_ne_nil (List.splitOn_ne_nil '\n' cs)
    rw [hcs, List.map_cons] at ih
    rw [plain_cons, List.splitOn_cons_eq_if_modifyHead, hcs]
    split_ifs with ht hr hn <;>
      simp_all [List.splitOn_cons_eq_if_modifyHead, plain_cons]
    rfl

theorem plainLines_eq (text : String) :
    plainLines text =
      (text.toList.splitOn '\n').map fun line => plainLine (String.ofList line) := by
  simp [plainLines, splitAt_eq_splitOn, splitOn_plain, plainLine]

/-- The lines of two texts, the second on a new line, are the lines of the one and of the other. -/
theorem plainLines_append (s t : String) :
    plainLines (s ++ "\n" ++ t) = plainLines s ++ plainLines t := by
  have hjoined : (s ++ "\n" ++ t).toList = s.toList ++ '\n' :: t.toList := by simp
  simp only [plainLines_eq, hjoined, List.splitOn_append_cons_self, List.map_append]

theorem plainLines_intercalate {lines : List String} (hne : lines ≠ [])
    (hl : ∀ line ∈ lines, '\n' ∉ line.toList) :
    plainLines ("\n".intercalate lines) = lines.map plainLine := by
  have hsplit : ("\n".intercalate lines).toList.splitOn '\n' = lines.map String.toList := by
    rw [String.toList_intercalate]
    refine List.splitOn_intercalate '\n' ?_ (by simpa using hne)
    simpa using hl
  rw [plainLines_eq, hsplit]
  simp

/-! ## Trimming -/

theorem trim_eq (cs : List Char) : trim cs = (cs.dropWhile isBlank).rdropWhile isBlank :=
  rfl

theorem trim_append_left {blanks : List Char} (h : ∀ c ∈ blanks, isBlank c = true)
    (cs : List Char) : trim (blanks ++ cs) = trim cs := by
  rw [trim_eq, trim_eq, List.dropWhile_append_of_pos h]

theorem dropWhile_eq_self {p : Char → Bool} {cs : List Char} (h : ∀ c ∈ cs.head?, p c = false) :
    cs.dropWhile p = cs := by
  cases cs with
  | nil => rfl
  | cons c cs => simp [h c rfl]

theorem trim_eq_self {cs : List Char} (hhead : ∀ c ∈ cs.head?, isBlank c = false)
    (hlast : ∀ c ∈ cs.getLast?, isBlank c = false) : trim cs = cs := by
  rw [trim_eq, dropWhile_eq_self hhead, List.rdropWhile_eq_self_iff]
  intro hne
  simp [hlast _ (List.getLast?_eq_some_getLast hne)]

theorem mem_of_mem_trim {cs : List Char} {c : Char} (h : c ∈ trim cs) : c ∈ cs := by
  rw [trim_eq] at h
  have hdrop : c ∈ cs.dropWhile isBlank := (List.rdropWhile_prefix isBlank _).subset h
  exact (List.dropWhile_suffix isBlank).subset hdrop

theorem head?_trim {cs : List Char} {c : Char} (h : c ∈ (trim cs).head?) : isBlank c = false := by
  obtain ⟨rest, hrest⟩ := List.rdropWhile_prefix isBlank (cs.dropWhile isBlank)
  have hhead : (cs.dropWhile isBlank).head? = some c := by
    rw [← hrest, ← trim_eq]
    simp [Option.mem_def.1 h]
  simpa [hhead] using List.head?_dropWhile_not isBlank cs

theorem getLast?_trim {cs : List Char} {c : Char} (h : c ∈ (trim cs).getLast?) :
    isBlank c = false := by
  rw [trim_eq] at h
  obtain ⟨hne, rfl⟩ := List.mem_getLast?_eq_getLast h
  simpa using List.rdropWhile_last_not isBlank (cs.dropWhile isBlank) hne

theorem rdropWhile_append_of_pos {p : Char → Bool} (cs : List Char) {ds : List Char}
    (h : ∀ c ∈ ds, p c = true) : (cs ++ ds).rdropWhile p = cs.rdropWhile p := by
  rw [List.rdropWhile, List.reverse_append, List.dropWhile_append_of_pos (by simpa using h)]
  rfl

theorem rdropWhile_append_of_neg {p : Char → Bool} (cs : List Char) {ds : List Char}
    (h : ∃ c ∈ ds, p c = false) : (cs ++ ds).rdropWhile p = cs ++ ds.rdropWhile p := by
  have hne : ds.reverse.dropWhile p ≠ [] := by
    obtain ⟨c, hc, hpc⟩ := h
    intro hnil
    have hall := List.dropWhile_eq_nil_iff.1 hnil c (List.mem_reverse.2 hc)
    simp [hpc] at hall
  rw [List.rdropWhile, List.reverse_append, List.dropWhile_append, if_neg (by simpa using hne)]
  simp [List.rdropWhile]

theorem dropWhile_append_of_neg {p : Char → Bool} {cs : List Char} (h : ∃ c ∈ cs, p c = false)
    (ds : List Char) : (cs ++ ds).dropWhile p = cs.dropWhile p ++ ds := by
  have hne : cs.dropWhile p ≠ [] := by
    obtain ⟨c, hc, hpc⟩ := h
    intro hnil
    have hall := List.dropWhile_eq_nil_iff.1 hnil c hc
    simp [hpc] at hall
  rw [List.dropWhile_append, if_neg (by simpa using hne)]

theorem trim_append_right (cs : List Char) {blanks : List Char}
    (h : ∀ c ∈ blanks, isBlank c = true) : trim (cs ++ blanks) = trim cs := by
  by_cases hcs : ∃ c ∈ cs, isBlank c = false
  · rw [trim_eq, trim_eq, dropWhile_append_of_neg hcs, rdropWhile_append_of_pos _ h]
  · have hall : ∀ c ∈ cs, isBlank c = true := by simpa using hcs
    have hnil := trim_append_left hall []
    rw [List.append_nil] at hnil
    rw [trim_append_left hall, hnil]
    simpa using trim_append_left h []

/-- Between characters that are kept, everything is. -/
theorem trim_between {cs ds : List Char} (hcs : ∃ c ∈ cs, isBlank c = false) (gap : List Char)
    (hds : ∃ c ∈ ds, isBlank c = false) :
    trim (cs ++ gap ++ ds) = cs.dropWhile isBlank ++ gap ++ ds.rdropWhile isBlank := by
  rw [trim_eq, List.append_assoc, dropWhile_append_of_neg hcs, ← List.append_assoc,
    rdropWhile_append_of_neg _ hds]

theorem plain_eq_self {cs : List Char} (ht : '\t' ∉ cs) (hr : '\r' ∉ cs) : plain cs = cs := by
  induction cs with
  | nil => rfl
  | cons c cs ih =>
    simp only [List.mem_cons, not_or] at ht hr
    rw [plain_cons, if_neg (Ne.symm ht.1), if_neg (Ne.symm hr.1), ih ht.2 hr.2]

/-- An indentation by spaces and tabs. -/
def Indentation (s : String) : Prop :=
  ∀ c ∈ s.toList, c = ' ' ∨ c = '\t'

instance (s : String) : Decidable (Indentation s) :=
  inferInstanceAs (Decidable (∀ c ∈ s.toList, c = ' ' ∨ c = '\t'))

/-- A text of blank characters that stays on one line. -/
def Blanks (s : String) : Prop :=
  ∀ c ∈ s.toList, isBlank c = true ∧ c ≠ '\n'

instance (s : String) : Decidable (Blanks s) :=
  inferInstanceAs (Decidable (∀ c ∈ s.toList, isBlank c = true ∧ c ≠ '\n'))

theorem Blanks.not_newline {s : String} (h : Blanks s) : '\n' ∉ s.toList :=
  fun hn => (h _ hn).2 rfl

theorem plain_blanks {blanks : String} (h : Blanks blanks) :
    ∀ c ∈ plain blanks.toList, isBlank c = true := by
  intro c hc
  obtain ⟨d, hd, hdc⟩ := List.mem_filterMap.1 hc
  have hblank := (h d hd).1
  split_ifs at hdc with htab hreturn
  · cases hdc
    decide
  · cases hdc
    exact hblank

/-- Blanks around a line are lost in its plain form. -/
theorem plainLine_append_left {blanks : String} (h : Blanks blanks) (line : String) :
    plainLine (blanks ++ line) = plainLine line := by
  rw [plainLine, plainLine, String.toList_append, plain_append, trim_append_left (plain_blanks h)]

theorem plainLine_append_right {blanks : String} (h : Blanks blanks) (line : String) :
    plainLine (line ++ blanks) = plainLine line := by
  rw [plainLine, plainLine, String.toList_append, plain_append,
    trim_append_right _ (plain_blanks h)]

theorem plainLine_of_blanks {blanks : String} (h : Blanks blanks) : plainLine blanks = "" := by
  rw [← String.empty_append (s := blanks), plainLine_append_right h]
  rfl

theorem Indentation.blanks {s : String} (h : Indentation s) : Blanks s := by
  intro c hc
  rcases h c hc with rfl | rfl <;> decide

/-! ## Lines of words -/

theorem plainLine_eq_self {line : String} (ht : '\t' ∉ line.toList) (hr : '\r' ∉ line.toList)
    (hhead : ∀ c ∈ line.toList.head?, isBlank c = false)
    (hlast : ∀ c ∈ line.toList.getLast?, isBlank c = false) : plainLine line = line := by
  rw [plainLine, plain_eq_self ht hr, trim_eq_self hhead hlast, String.ofList_toList]

/-- Besides spaces a plain line holds characters of the line it is the plain form of, and neither
tabs nor carriage returns. -/
theorem mem_plainLine {line : String} {c : Char} (h : c ∈ (plainLine line).toList) :
    c = ' ' ∨ c ≠ '\t' ∧ c ≠ '\r' ∧ c ∈ line.toList := by
  rw [plainLine, String.toList_ofList] at h
  obtain ⟨d, hd, hdc⟩ := List.mem_filterMap.1 (mem_of_mem_trim h)
  grind

theorem plainLine_plainLine (line : String) : plainLine (plainLine line) = plainLine line := by
  have hchars : ∀ c ∈ (plainLine line).toList, c ≠ '\t' ∧ c ≠ '\r' := by
    intro c hc
    have := mem_plainLine hc
    grind
  apply plainLine_eq_self
  · exact fun h => (hchars _ h).1 rfl
  · exact fun h => (hchars _ h).2 rfl
  · intro c hc
    exact head?_trim (by simpa [plainLine] using hc)
  · intro c hc
    exact getLast?_trim (by simpa [plainLine] using hc)

/-- What stands in a line of words: spaces, and the characters of the words. -/
theorem mem_intercalate_words {words : List String} {c : Char}
    (h : c ∈ (" ".intercalate words).toList) : c = ' ' ∨ ∃ w ∈ words, c ∈ w.toList := by
  induction words with
  | nil => simp at h
  | cons w rest ih =>
    cases rest with
    | nil => exact .inr ⟨w, by simp, by simpa using h⟩
    | cons v rest =>
      simp only [String.intercalate_cons_cons, String.toList_append, List.mem_append] at h
      rcases h with (hw | hs) | hr
      · exact .inr ⟨w, by simp, hw⟩
      · exact .inl (by simpa using hs)
      · exact (ih hr).imp_right fun ⟨u, hu, hc⟩ => ⟨u, List.mem_cons_of_mem w hu, hc⟩

theorem head?_intercalate_words {w : String} (hw : w ≠ "") (rest : List String) :
    (" ".intercalate (w :: rest)).toList.head? = w.toList.head? := by
  cases rest with
  | nil => simp
  | cons v rest =>
    rw [String.intercalate_cons_cons, String.append_assoc, String.toList_append,
      List.head?_append_of_ne_nil]
    simpa using hw

theorem getLast?_intercalate_words {w : String} (hw : w ≠ "") (front : List String) :
    (" ".intercalate (front ++ [w])).toList.getLast? = w.toList.getLast? := by
  have hne : w.toList ≠ [] := by simpa using hw
  cases front with
  | nil => simp
  | cons v front =>
    rw [String.intercalate_append_of_ne_nil (by simp) (by simp), String.intercalate_singleton,
      String.toList_append, List.getLast?_append_of_ne_nil _ hne]

/-- A line of bare words is plain. -/
theorem plainLine_words {words : List String} (hne : ∀ w ∈ words, w ≠ "")
    (hb : ∀ w ∈ words, Bare w) : plainLine (" ".intercalate words) = " ".intercalate words := by
  have hmem : ∀ c, c ≠ ' ' → isBlank c = true → c ∉ (" ".intercalate words).toList := by
    intro c hspace hblank hc
    rcases mem_intercalate_words hc with h | ⟨w, hw, h⟩
    · exact hspace h
    · exact (hb w hw).not_mem hblank h
  refine plainLine_eq_self (hmem _ (by decide) (by decide)) (hmem _ (by decide) (by decide)) ?_ ?_
  · intro c hc
    cases words with
    | nil => simp at hc
    | cons w rest =>
      rw [head?_intercalate_words (hne w (by simp))] at hc
      exact hb w (by simp) c (List.mem_of_head? hc)
  · intro c hc
    rcases List.eq_nil_or_concat' words with rfl | ⟨front, w, rfl⟩
    · simp at hc
    · rw [getLast?_intercalate_words (hne w (by simp))] at hc
      exact hb w (by simp) c (List.mem_of_getLast? hc)

/-- The tokens of a line of words are the words. -/
theorem lineTokens_words {words : List String} (hne : ∀ w ∈ words, w ≠ "")
    (hs : ∀ w ∈ words, ' ' ∉ w.toList) : lineTokens (" ".intercalate words) = words := by
  cases words with
  | nil => rfl
  | cons w rest =>
    have hsplit : (" ".intercalate (w :: rest)).toList.splitOn ' '
        = (w :: rest).map String.toList := by
      rw [String.toList_intercalate]
      exact List.splitOn_intercalate ' ' (by simpa using hs) (by simp)
    have hfilter : ((w :: rest).map String.toList).filter (!·.isEmpty)
        = (w :: rest).map String.toList := by
      rw [List.filter_eq_self]
      intro cs hcs
      obtain ⟨v, hv, rfl⟩ := List.mem_map.1 hcs
      simpa using hne v hv
    rw [lineTokens, splitAt_eq_splitOn, hsplit, hfilter, List.map_map]
    simp

end InterfaceSchema
