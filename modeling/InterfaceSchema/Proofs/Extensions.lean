import InterfaceSchema.Proofs.Cutting
import InterfaceSchema.Proofs.DamagedReading
import InterfaceSchema.SourceFilter

/-!
# Extensions of file names

The extension of a name is what stands behind its last dot, provided that something stands in front
of this dot. No extension has a dot in it, nor has the text that it is shown as, before and after
this is put into lower case. So an extension that is asked for and has a dot behind its first
character is no file's.

## Main definitions

* `HasExtension` — names with an extension.
* `SourceFilter.AsksFor` — the extensions that a filter asks for.
-/

namespace InterfaceSchema

/-- Whether a name ends in a dot and the extension, with something in front of the dot. -/
def HasExtension (name ext : RawName) : Prop :=
  ∃ stem, stem ≠ [] ∧ name = stem ++ 0x2E :: ext ∧ 0x2E ∉ ext

/-- Whether one of the extensions asked for is the given one as it is shown, regardless of case and
of a dot in front. -/
def SourceFilter.AsksFor (f : SourceFilter) (ext : RawName) : Prop :=
  ∃ e ∈ f.extensions, normalizeExtension e = "." ++ lowerCase (Utf8.lossyText ext)

/-! ## The last dot -/

/-- A list is cut where an item occurs last. -/
theorem exists_last_of_mem {α : Type} {c : α} {cs : List α} (h : c ∈ cs) :
    ∃ front back, cs = front ++ c :: back ∧ c ∉ back := by
  obtain ⟨before, after, hreverse, hbefore⟩ := List.eq_append_cons_of_mem (List.mem_reverse.2 h)
  refine ⟨after.reverse, before.reverse, ?_, by simpa using hbefore⟩
  rw [← List.reverse_reverse cs, hreverse]
  simp

theorem splitOn_eq_singleton_nil {α : Type} [DecidableEq α] {sep : α} {cs : List α}
    (h : cs.splitOn sep = [[]]) : cs = [] := by
  have hcut : [sep].intercalate (cs.splitOn sep) = cs := List.intercalate_splitOn sep
  rw [← hcut, h]
  rfl

/-- Behind the last dot stands the extension, unless nothing stands in front of it. -/
theorem extension?_of_last_dot {front back : RawName} (hback : 0x2E ∉ back)
    (hup : front ++ 0x2E :: back ≠ [0x2E, 0x2E]) :
    extension? (front ++ 0x2E :: back) = if front = [] then none else some back := by
  have hpieces : splitAt 0x2E (front ++ 0x2E :: back) = front.splitOn 0x2E ++ [back] := by
    rw [splitAt_eq_splitOn, List.splitOn_append_cons_self, List.splitOn_eq_singleton hback]
  rw [extension?, if_neg hup, hpieces]
  split_ifs with hfront
  · subst hfront
    rfl
  · have hne : front.splitOn 0x2E ≠ [[]] := fun h => hfront (splitOn_eq_singleton_nil h)
    obtain ⟨first, more, hcut⟩ := List.exists_cons_of_ne_nil (List.splitOn_ne_nil 0x2E front)
    rw [hcut] at hne ⊢
    split
    · next h => simp at h
    · next h => simp at h
    · next h =>
      obtain ⟨rfl, hmore⟩ := List.cons.inj h
      have hlength := congrArg List.length hmore
      have hnil : more = [] := by simpa using hlength
      exact absurd (by rw [hnil]) hne
    · rw [List.getLast?_concat]

theorem extension?_eq_some_iff {name ext : RawName} (hup : name ≠ [0x2E, 0x2E]) :
    extension? name = some ext ↔ HasExtension name ext := by
  constructor
  · intro h
    by_cases hdot : 0x2E ∈ name
    · obtain ⟨front, back, rfl, hback⟩ := exists_last_of_mem hdot
      rw [extension?_of_last_dot hback hup] at h
      split_ifs at h with hfront
      obtain rfl := Option.some.inj h
      exact ⟨front, hfront, rfl, hback⟩
    · rw [extension?, if_neg hup, splitAt_eq_splitOn, List.splitOn_eq_singleton hdot] at h
      cases h
  · rintro ⟨stem, hstem, rfl, hext⟩
    rw [extension?_of_last_dot hext hup, if_neg hstem]

/-- A filter wants the names that are not passed over and have an extension that it asks for. -/
theorem SourceFilter.wants_normalized_iff (f : SourceFilter) {name : RawName}
    (hup : name ≠ [0x2E, 0x2E]) : f.normalized.wants name = true ↔
      f.skips name false = false ∧ ∃ ext, HasExtension name ext ∧ f.AsksFor ext := by
  have hskips : f.normalized.skips name false = f.skips name false := rfl
  rw [wants, hskips, Bool.and_eq_true, Bool.not_eq_true']
  refine and_congr_right fun _ => ?_
  simp only [← extension?_eq_some_iff hup]
  rw [takesExtension]
  cases extension? name with
  | none => simp
  | some ext => simp [normalized, AsksFor]

/-! ## Dots in lower case -/

theorem ofNat_ne_dot {n : Nat} (h : n ≠ 0x2E) : Char.ofNat n ≠ '.' := by
  by_cases hn : n.isValidChar
  · rw [Char.ofNat, dif_pos hn]
    intro heq
    exact h (congrArg Char.toNat heq)
  · rw [Char.ofNat, dif_neg hn]
    decide

namespace LowerCase

/-- No character becomes a dot in lower case but a dot itself. -/
theorem dot_not_mem_ofChar {c : Char} (hc : c ≠ '.') : '.' ∉ ofChar c := by
  have hrules : ∀ r ∈ rules, 0x2E < r.first + r.shift ∨ r.last + r.shift < 0x2E := by
    decide +kernel
  unfold ofChar
  split_ifs
  · decide
  · split
    · next r hr =>
      have happlies := List.find?_some hr
      simp only [Rule.applies, Bool.and_eq_true, decide_eq_true_iff] at happlies
      have hout := hrules r (List.mem_of_find?_eq_some hr)
      rw [List.mem_singleton, Int.ofNat_eq_natCast]
      exact (ofNat_ne_dot (by omega)).symm
    · exact fun hdot => hc (List.mem_singleton.1 hdot).symm

theorem ofChar_ne_nil (c : Char) : ofChar c ≠ [] := by
  unfold ofChar
  split_ifs
  · simp
  · split <;> simp

/-- A character becomes some characters in lower case, a dot among them only if it is one. -/
theorem after_cons (before : List Char) (c : Char) (rest : List Char) :
    ∃ cs, after before (c :: rest) = cs ++ after (c :: before) rest ∧ cs ≠ [] ∧
      ('.' ∈ cs ↔ c = '.') := by
  refine ⟨_, rfl, ?_, ?_⟩
  · split_ifs
    · simp
    · simp
    · exact ofChar_ne_nil c
  · by_cases hc : c = '.'
    · subst hc
      have hdot : ofChar '.' = ['.'] := by decide
      simp [hdot]
    · simp only [hc, iff_false]
      split_ifs
      · decide
      · decide
      · exact dot_not_mem_ofChar hc

end LowerCase

/-- Putting a text into lower case neither adds nor removes dots. -/
theorem dot_mem_after_iff (before cs : List Char) : '.' ∈ LowerCase.after before cs ↔ '.' ∈ cs := by
  induction cs generalizing before with
  | nil => rfl
  | cons c rest ih =>
    obtain ⟨cs, hcs, -, hdot⟩ := LowerCase.after_cons before c rest
    rw [hcs, List.mem_append, hdot, ih, List.mem_cons, eq_comm]

/-- An extension that is asked for with a dot behind its first character is not the extension of any
file. -/
theorem normalizeExtension_ne_of_dot {e : String} {name ext : RawName} (he : '.' ∈ e.toList.tail)
    (h : HasExtension name ext) :
    normalizeExtension e ≠ "." ++ lowerCase (Utf8.lossyText ext) := by
  have hlower : '.' ∉ (lowerCase (Utf8.lossyText ext)).toList := by
    obtain ⟨-, -, -, hext⟩ := h
    have hlow : (0x2E : UInt8) ≤ 0x7F := by decide
    rw [lowerCase, String.toList_ofList, dot_mem_after_iff, Utf8.lossyText, String.toList_ofList]
    exact fun hdot => hext ((Utf8.mem_decodeLossy_iff hlow).1 hdot)
  obtain ⟨c, rest, hcs⟩ : ∃ c rest, e.toList = c :: rest := by
    cases hcs : e.toList with
    | nil => simp [hcs] at he
    | cons c rest => exact ⟨c, rest, rfl⟩
  rw [hcs, List.tail_cons] at he
  obtain ⟨front, hfront, hne, -⟩ := LowerCase.after_cons [] c rest
  obtain ⟨d, more, rfl⟩ := List.exists_cons_of_ne_nil hne
  have hdot : '.' ∈ LowerCase.after [c] rest := (dot_mem_after_iff [c] rest).2 he
  have hchars : (lowerCase e).toList = d :: (more ++ LowerCase.after [c] rest) := by
    rw [lowerCase, String.toList_ofList, hcs, hfront, List.cons_append]
  intro heq
  have htail : '.' ∈ (normalizeExtension e).toList.tail := by
    rw [normalizeExtension]
    split_ifs
    · simp [hchars, hdot]
    · simp [hchars, hdot]
  rw [heq, String.toList_append] at htail
  exact hlower (by simpa using htail)

end InterfaceSchema
