import InterfaceSchema.Proofs.DamagedReading
import InterfaceSchema.SourceFile

/-!
# Source text

What the text of a source says of its bytes. Damage stays where it is: the characters below 0x80 are
the bytes below 0x80, any other one stands with its bytes in the source or is a replacement, and
every line is read on its own. A text gives back the bytes if they are well-formed, and the bytes of
a text read from a source are a source with the same text, because no null byte comes nearer to the
front than it was.

## Main statements

* `decodeSource_reads` — the text is what the bytes are read as, and lines are read one by one.
* `decodeSource_faithful` — which bytes the text gives back, and that it is read from its own bytes.
-/

namespace InterfaceSchema

namespace Utf8

variable {bytes : List UInt8}

/-! ## Lines -/

/-- A line feed ends whatever was begun. -/
theorem decodeLossy_append_cons (front rest : List UInt8) :
    decodeLossy (front ++ 0x0A :: rest) = decodeLossy front ++ '\n' :: decodeLossy rest := by
  have hlow : (0x0A : UInt8) ≤ 0x7F := by decide
  have hall := (reads_decodeLossy front).append_ascii hlow (reads_decodeLossy rest)
  exact (reads_iff.1 hall).symm

theorem newline_not_mem_decodeLossy (h : 0x0A ∉ bytes) : '\n' ∉ decodeLossy bytes := by
  have hlow : (0x0A : UInt8) ≤ 0x7F := by decide
  exact fun hmem => h ((mem_decodeLossy_iff hlow).1 hmem)

/-- The lines of the text are the texts of the lines. -/
theorem splitOn_decodeLossy (bytes : List UInt8) :
    (decodeLossy bytes).splitOn '\n' = (bytes.splitOn 0x0A).map decodeLossy := by
  by_cases h : 0x0A ∈ bytes
  · obtain ⟨line, rest, rfl, hline⟩ := List.eq_append_cons_of_mem h
    rw [decodeLossy_append_cons, List.splitOn_append_cons_self_of_not_mem hline,
      List.splitOn_append_cons_self_of_not_mem (newline_not_mem_decodeLossy hline), List.map_cons,
      splitOn_decodeLossy rest]
  · rw [List.splitOn_eq_singleton h, List.splitOn_eq_singleton (newline_not_mem_decodeLossy h),
      List.map_singleton]
termination_by bytes.length

/-! ## Bytes of a text -/

theorem encode_decodeLossy_iff : encode (decodeLossy bytes) = bytes ↔ WellFormed bytes := by
  rw [wellFormed_iff]
  constructor
  · intro h
    exact ⟨_, h⟩
  · rintro ⟨cs, rfl⟩
    rw [decodeLossy_encode]

end Utf8

section Sources

variable {bytes front rest : List UInt8}

theorem isBinary_eq_false_iff : isBinary bytes = false ↔ 0 ∉ bytes.take sniffWindow := by
  simp [isBinary]

theorem isBinary_of_append (h : isBinary (front ++ rest) = false) : isBinary front = false := by
  rw [isBinary_eq_false_iff] at h ⊢
  rw [List.take_append] at h
  exact fun hmem => h (List.mem_append_left _ hmem)

theorem decodeSource_of_not_binary (h : isBinary bytes = false) :
    decodeSource bytes = .ok (String.ofList (Utf8.decodeLossy bytes)) := by
  simp [decodeSource, h]

/-! ## Damage stays where it is -/

/-- A source that does not look binary is read by the rule for damaged bytes. The characters below
0x80 of its text are its bytes below 0x80, in the same order, and any other character stands with
its bytes in the source or is a replacement. Its lines are read one by one; in particular a source
put together from two with a line feed between them has their texts, with a line feed between
them. -/
theorem decodeSource_reads (h : isBinary bytes = false) :
    ∃ text, decodeSource bytes = .ok text ∧
      (∀ cs, Utf8.Reads bytes cs ↔ cs = text.toList) ∧
      text.toList.filter (·.toNat < 0x80) =
        (bytes.filter (· < 0x80)).map (fun b => Char.ofNat b.toNat) ∧
      (∀ c ∈ text.toList, String.utf8EncodeChar c <:+: bytes ∨ c = Utf8.replacement) ∧
      text.toList.splitOn '\n' = (bytes.splitOn 0x0A).map Utf8.decodeLossy ∧
      ∀ front rest, bytes = front ++ 0x0A :: rest → isBinary rest = false →
        ∃ before after, decodeSource front = .ok before ∧ decodeSource rest = .ok after ∧
          text = before ++ "\n" ++ after := by
  have hreads := Utf8.reads_decodeLossy bytes
  refine ⟨_, decodeSource_of_not_binary h, ?_⟩
  rw [String.toList_ofList]
  refine ⟨fun cs => Utf8.reads_iff, hreads.filter_ascii, fun c => hreads.infix_or_replacement,
    Utf8.splitOn_decodeLossy bytes, ?_⟩
  rintro front rest rfl hrest
  have hfront : isBinary front = false := isBinary_of_append h
  refine ⟨_, _, decodeSource_of_not_binary hfront, decodeSource_of_not_binary hrest, ?_⟩
  rw [Utf8.decodeLossy_append_cons, ← String.toList_inj]
  simp

/-- Two of the three bytes of a character in front of a line feed, and behind it a byte with which
no character begins. -/
theorem decodeSource_reads_damaged :
    isBinary [0x61, 0xE2, 0x82, 0x0A, 0xFF, 0x62] = false ∧
      ∃ text, decodeSource [0x61, 0xE2, 0x82, 0x0A, 0xFF, 0x62] = .ok text ∧
        text.toList = ['a', '\uFFFD', '\n', '\uFFFD', 'b'] ∧
        ∃ before after, decodeSource [0x61, 0xE2, 0x82] = .ok before ∧
          decodeSource [0xFF, 0x62] = .ok after ∧ text = before ++ "\n" ++ after := by
  have h : isBinary [0x61, 0xE2, 0x82, 0x0A, 0xFF, 0x62] = false := by decide
  obtain ⟨text, htext, hreads, -, -, -, hlines⟩ := decodeSource_reads h
  refine ⟨h, text, htext, ?_, hlines _ _ rfl (by decide)⟩
  rw [← (hreads _).1 (Utf8.reads_decodeLossy _)]
  decide

/-! ## Reading a text from its own bytes -/

/-- The text of a source that does not look binary gives back the bytes exactly if these are
well-formed. Its own bytes never look binary, because no null byte comes nearer to the front, and
the text is read from them again. -/
theorem decodeSource_faithful (h : isBinary bytes = false) :
    ∃ text, decodeSource bytes = .ok text ∧ (utf8 text = bytes ↔ Utf8.WellFormed bytes) ∧
      (∀ n, 0 ∈ (utf8 text).take n → 0 ∈ bytes.take n) ∧ isBinary (utf8 text) = false ∧
      decodeSource (utf8 text) = .ok text := by
  have htext : utf8 (String.ofList (Utf8.decodeLossy bytes)) =
      Utf8.encode (Utf8.decodeLossy bytes) := by
    rw [utf8, String.toList_ofList]
  have hnull : ∀ n, 0 ∈ (Utf8.encode (Utf8.decodeLossy bytes)).take n → 0 ∈ bytes.take n :=
    fun n => (Utf8.reads_decodeLossy bytes).mem_take (by decide)
  have hbinary : isBinary (Utf8.encode (Utf8.decodeLossy bytes)) = false := by
    rw [isBinary_eq_false_iff] at h ⊢
    exact fun hmem => h (hnull _ hmem)
  refine ⟨_, decodeSource_of_not_binary h, ?_⟩
  rw [htext]
  refine ⟨Utf8.encode_decodeLossy_iff, hnull, hbinary, ?_⟩
  rw [decodeSource_of_not_binary hbinary, Utf8.decodeLossy_encode]

/-- A character cut off behind its second byte is not given back, but its replacement is. -/
theorem decodeSource_faithful_cut : isBinary [0x61, 0xE2, 0x82] = false ∧
    ¬Utf8.WellFormed [0x61, 0xE2, 0x82] ∧
    ∃ text, decodeSource [0x61, 0xE2, 0x82] = .ok text ∧
      utf8 text = [0x61, 0xEF, 0xBF, 0xBD] ∧ decodeSource [0x61, 0xEF, 0xBF, 0xBD] = .ok text := by
  have h : isBinary [0x61, 0xE2, 0x82] = false := by decide
  obtain ⟨text, htext, hbytes, -, -, hagain⟩ := decodeSource_faithful h
  have hutf8 : utf8 text = [0x61, 0xEF, 0xBF, 0xBD] := by
    rw [decodeSource_of_not_binary h] at htext
    cases htext
    rw [utf8, String.toList_ofList]
    decide
  rw [hutf8] at hbytes hagain
  exact ⟨h, fun hwell => absurd (hbytes.2 hwell) (by decide), text, htext, hutf8, hagain⟩

end Sources

end InterfaceSchema
