import InterfaceSchema.Proofs.Sequences

/-!
# Damaged bytes

The rule by which any bytes are read: from the front on, either the bytes of a character are taken,
or a piece that is damaged. A damaged piece is a byte with which no character begins, or as many
bytes as a character begins with, up to where no character goes on like that. It is replaced as a
whole.

There is exactly one text that bytes are read as by this rule. A byte below 0x80 belongs to no
damaged piece. So all characters below 0x80 are left as they are, what stands in front of one is
read without what stands behind it, and since a replacement has as many bytes as the longest damaged
piece, no such character comes nearer to the front.

## Main definitions

* `Utf8.Piece` — what a piece in front of other bytes is read as.
* `Utf8.Reads` — what bytes are read as.
-/

namespace InterfaceSchema.Utf8

/-- The character that a piece in front of `rest` is read as. -/
inductive Piece (rest : List UInt8) : List UInt8 → Char → Prop where
  /-- The bytes of a character. -/
  | whole (c : Char) : Piece rest (String.utf8EncodeChar c) c
  /-- A byte with which no character begins. -/
  | stray {b : UInt8} (hb : ∀ more, ¬IsSequence (b :: more)) : Piece rest [b] replacement
  /-- Bytes with which a character begins, but not one that goes on with the byte behind them. -/
  | cut {piece more : List UInt8} (hpiece : piece ≠ []) (hmore : more ≠ [])
    (hbegun : IsSequence (piece ++ more))
    (hnext : ∀ b ∈ rest.head?, ∀ more, ¬IsSequence (piece ++ b :: more)) :
    Piece rest piece replacement

/-- The text that bytes are read as, piece by piece. -/
inductive Reads : List UInt8 → List Char → Prop where
  | nil : Reads [] []
  | cons {piece rest : List UInt8} {c : Char} {cs : List Char} (hpiece : Piece rest piece c)
    (hrest : Reads rest cs) : Reads (piece ++ rest) (c :: cs)

variable {piece rest piece' rest' bytes : List UInt8} {c d : Char} {cs ds : List Char}

/-! ## There is one way to read -/

theorem utf8EncodeChar_injective (h : String.utf8EncodeChar c = String.utf8EncodeChar d) :
    c = d := by
  have hstep := Machine.foldl_step_encodeChar [] c
  rw [h, Machine.foldl_step_encodeChar] at hstep
  simpa using hstep.symm

namespace Piece

theorem ne_nil (h : Piece rest piece c) : piece ≠ [] := by
  cases h with
  | whole c => exact (isSequence_encodeChar c).ne_nil
  | stray hb => simp
  | cut hpiece => exact hpiece

/-- A piece is as long as it can be: whatever else could be taken from the same bytes begins a
character with the byte behind the piece, which a piece of no kind leaves possible. -/
theorem eq_nil_of_append {more : List UInt8} (h : Piece rest piece c)
    (h' : Piece rest' (piece ++ more) d) (hrest : rest = more ++ rest') : more = [] := by
  by_contra hne
  obtain ⟨b, more, rfl⟩ := List.exists_cons_of_ne_nil hne
  obtain ⟨further, hlong⟩ : ∃ further, IsSequence (piece ++ b :: further) := by
    generalize hlonger : piece ++ b :: more = longer at h'
    cases h' with
    | whole d => exact ⟨more, hlonger ▸ isSequence_encodeChar d⟩
    | stray hb =>
      obtain ⟨a, piece, rfl⟩ := List.exists_cons_of_ne_nil h.ne_nil
      simp at hlonger
    | @cut _ further _ _ hbegun =>
      subst hlonger
      exact ⟨more ++ further, by simpa using hbegun⟩
  cases h with
  | whole c => simpa using (isSequence_encodeChar c).eq_nil_of_append hlong
  | stray hb => exact hb _ hlong
  | cut _ _ _ hnext => exact hnext b (by simp [hrest]) further hlong

theorem encodeChar_eq (h : Piece rest piece c) (hs : IsSequence piece) :
    String.utf8EncodeChar c = piece := by
  cases h with
  | whole c => rfl
  | stray hb => exact absurd hs (hb [])
  | cut _ hmore hbegun => exact absurd (hs.eq_nil_of_append hbegun) hmore

theorem eq_replacement (h : Piece rest piece c) (hs : ¬IsSequence piece) : c = replacement := by
  cases h with
  | whole c => exact absurd (isSequence_encodeChar c) hs
  | stray hb => rfl
  | cut => rfl

theorem char_unique (h : Piece rest piece c) (h' : Piece rest' piece d) : c = d := by
  by_cases hs : IsSequence piece
  · exact utf8EncodeChar_injective ((h.encodeChar_eq hs).trans (h'.encodeChar_eq hs).symm)
  · exact (h.eq_replacement hs).trans (h'.eq_replacement hs).symm

/-- From the same bytes, the same piece is taken as the same character. -/
theorem unique (h : Piece rest piece c) (h' : Piece rest' piece' d)
    (heq : piece ++ rest = piece' ++ rest') : piece = piece' ∧ rest = rest' ∧ c = d := by
  have hpiece : piece = piece' := by
    rcases List.append_eq_append_iff.1 heq with ⟨more, rfl, hrest⟩ | ⟨more, rfl, hrest⟩
    · rw [h.eq_nil_of_append h' hrest, List.append_nil]
    · rw [h'.eq_nil_of_append h hrest, List.append_nil]
  subst hpiece
  exact ⟨rfl, List.append_cancel_left heq, h.char_unique h'⟩

end Piece

theorem Reads.unique (h : Reads bytes cs) (h' : Reads bytes ds) : cs = ds := by
  induction h generalizing ds with
  | nil =>
    generalize heq : [] = bytes at h'
    cases h' with
    | nil => rfl
    | cons hpiece _ => exact absurd (List.append_eq_nil_iff.1 heq.symm).1 hpiece.ne_nil
  | @cons piece rest c cs hpiece _ ih =>
    generalize heq : piece ++ rest = bytes at h'
    cases h' with
    | nil => exact absurd (List.append_eq_nil_iff.1 heq).1 hpiece.ne_nil
    | cons hpiece' hrest' =>
      obtain ⟨rfl, rfl, rfl⟩ := hpiece.unique hpiece' heq
      rw [ih hrest']

/-! ## Bytes below 0x80 -/

section Ascii

variable {x : UInt8}

theorem toNat_charOfNat_toNat (b : UInt8) : (Char.ofNat b.toNat).toNat = b.toNat :=
  toNat_charOfNat (.inl (Nat.lt_trans b.toNat_lt (by decide)))

theorem piece_ascii (hx : x ≤ 0x7F) (rest : List UInt8) :
    Piece rest [x] (Char.ofNat x.toNat) := by
  rw [← encodeChar_one hx]
  exact .whole _

/-- A piece is one byte below 0x80 that stands for itself, or nothing in it is below 0x80. -/
theorem Piece.ascii_or_high (h : Piece rest piece c) :
    (∃ a ≤ 0x7F, piece = [a] ∧ c = Char.ofNat a.toNat) ∨
      (∀ b ∈ piece, 0x80 ≤ b) ∧ 0x80 ≤ c.toNat := by
  cases h with
  | whole c =>
    by_cases hc : c.toNat ≤ 0x7F
    · have hb : (UInt8.ofNat c.toNat).toNat = c.toNat := toNat_ofNat_of_lt (by omega)
      refine .inl ⟨UInt8.ofNat c.toNat, ?_, ?_, ?_⟩
      · rw [UInt8.le_iff_toNat_le, hb]
        exact hc
      · rw [utf8EncodeChar_eq, if_pos hc]
      · rw [hb, Char.ofNat_toNat]
    · refine .inr ⟨fun b hb => ?_, by omega⟩
      rw [UInt8.le_iff_toNat_le]
      rcases of_mem_utf8EncodeChar hb with hb | hb
      · simp only [hb, UInt8.reduceToNat]
        omega
      · exact hb
  | stray hb =>
    refine .inr ⟨?_, by decide⟩
    rw [List.forall_mem_singleton]
    by_contra hlow
    exact hb [] (.one (by grind))
  | cut hpiece hmore hbegun =>
    refine .inr ⟨fun b hb => hbegun.high ?_ b (List.mem_append_left _ hb), by decide⟩
    have := List.length_pos_iff.2 hpiece
    have := List.length_pos_iff.2 hmore
    rw [List.length_append]
    omega

/-- The characters below 0x80 are the bytes below 0x80, in the same order. -/
theorem Reads.filter_ascii (h : Reads bytes cs) : cs.filter (·.toNat < 0x80) =
    (bytes.filter (· < 0x80)).map fun b => Char.ofNat b.toNat := by
  induction h with
  | nil => rfl
  | @cons piece rest c cs hpiece _ ih =>
    rw [List.filter_append, List.map_append, ← ih]
    rcases hpiece.ascii_or_high with ⟨a, ha, rfl, rfl⟩ | ⟨hhigh, hc⟩
    · have hlow : a.toNat < 0x80 := Nat.lt_succ_of_le (UInt8.le_iff_toNat_le.1 ha)
      have ha' : a < 0x80 := UInt8.lt_iff_toNat_lt.2 hlow
      rw [List.filter_cons_of_pos (by simpa [toNat_charOfNat_toNat] using hlow),
        List.filter_cons_of_pos (by simpa using ha')]
      rfl
    · have hnone : piece.filter (· < 0x80) = [] := by
        rw [List.filter_eq_nil_iff]
        intro b hb
        simpa using hhigh b hb
      rw [hnone, List.filter_cons_of_neg (by simpa using hc)]
      rfl

/-- Where all characters are below 0x80, the bytes are theirs. -/
theorem Reads.encode_eq_of_ascii (h : Reads bytes cs) (hcs : ∀ c ∈ cs, c.toNat < 0x80) :
    encode cs = bytes := by
  induction h with
  | nil => rfl
  | @cons piece rest c cs hpiece _ ih =>
    obtain ⟨hc, hrest⟩ := List.forall_mem_cons.1 hcs
    rcases hpiece.ascii_or_high with ⟨a, ha, rfl, rfl⟩ | ⟨-, hhigh⟩
    · rw [encode_cons, encodeChar_one ha, ih hrest]
    · omega

/-- Characters below 0x80 at the end of a text are the end of the bytes. -/
theorem Reads.suffix_of_ascii (h : Reads bytes cs) (hds : ∀ d ∈ ds, d.toNat < 0x80)
    (hsuffix : ds <:+ cs) : encode ds <:+ bytes := by
  induction h with
  | nil =>
    rw [List.suffix_nil.1 hsuffix]
    exact List.nil_suffix
  | @cons piece rest c cs hpiece hrest ih =>
    rcases List.suffix_cons_iff.1 hsuffix with rfl | hsuffix
    · have hall := (Reads.cons hpiece hrest).encode_eq_of_ascii hds
      exact hall ▸ List.suffix_refl _
    · exact (ih hsuffix).trans (List.suffix_append piece rest)

/-- A byte below 0x80 goes on with nothing, so a piece in front of it stays what it is. -/
theorem Piece.append_ascii (h : Piece rest piece c) (hx : x ≤ 0x7F) (further : List UInt8) :
    Piece (rest ++ x :: further) piece c := by
  cases h with
  | whole c => exact .whole c
  | stray hb => exact .stray hb
  | cut hpiece hmore hbegun hnext =>
    refine .cut hpiece hmore hbegun ?_
    cases rest with
    | nil =>
      rintro _ ⟨⟩ more hs
      have hlength : 1 < (piece ++ x :: more).length := by
        have := List.length_pos_iff.2 hpiece
        rw [List.length_append, List.length_cons]
        omega
      exact absurd (UInt8.le_trans (hs.high hlength x (by simp)) hx) (by decide)
    | cons b rest => exact hnext

theorem Reads.append_ascii (h : Reads bytes cs) (hx : x ≤ 0x7F) {further : List UInt8}
    (hfurther : Reads further ds) :
    Reads (bytes ++ x :: further) (cs ++ Char.ofNat x.toNat :: ds) := by
  induction h with
  | nil => exact (Reads.cons (piece_ascii hx further) hfurther : Reads ([x] ++ further) _)
  | cons hpiece _ ih =>
    rw [List.append_assoc]
    exact .cons (hpiece.append_ascii hx further) ih

end Ascii

/-! ## Where characters stand -/

/-- A piece is not longer than the bytes of the character that it is read as: three bytes at most
are damaged together, and a replacement has three. -/
theorem Piece.length_le (h : Piece rest piece c) :
    piece.length ≤ (String.utf8EncodeChar c).length := by
  have hreplacement : (String.utf8EncodeChar replacement).length = 3 := by decide
  cases h with
  | whole c => exact Nat.le_refl _
  | stray hb => simp [hreplacement]
  | cut _ hmore hbegun =>
    have hlength := hbegun.length_le
    rw [List.length_append] at hlength
    have := List.length_pos_iff.2 hmore
    omega

/-- A byte below 0x80 at the front of the text's bytes comes from the same front of the bytes
read. -/
theorem Reads.mem_take (h : Reads bytes cs) {x : UInt8} (hx : x ≤ 0x7F) {n : Nat}
    (hmem : x ∈ (encode cs).take n) : x ∈ bytes.take n := by
  induction h generalizing n with
  | nil => exact hmem
  | @cons piece rest c cs hpiece _ ih =>
    rw [encode_cons, List.take_append, List.mem_append] at hmem
    rw [List.take_append, List.mem_append]
    rcases hmem with hmem | hmem
    · rcases hpiece.ascii_or_high with ⟨a, ha, rfl, rfl⟩ | ⟨-, hc⟩
      · exact .inl (encodeChar_one ha ▸ hmem)
      · have hlow : x.toNat ≤ 0x7F := UInt8.le_iff_toNat_le.1 hx
        have := of_mem_utf8EncodeChar (List.mem_of_mem_take hmem)
        omega
    · have := hpiece.length_le
      exact .inr (List.take_subset_take_left _ (by omega) (ih hmem))

/-- A character that is not a replacement stands with its bytes in what is read. -/
theorem Reads.infix_or_replacement (h : Reads bytes cs) (hc : c ∈ cs) :
    String.utf8EncodeChar c <:+: bytes ∨ c = replacement := by
  induction h with
  | nil => cases hc
  | @cons piece rest d cs hpiece _ ih =>
    rcases List.mem_cons.1 hc with rfl | hc
    · cases hpiece with
      | whole c => exact .inl (List.prefix_append _ rest).isInfix
      | stray hb => exact .inr rfl
      | cut => exact .inr rfl
    · exact (ih hc).imp_left fun h => h.trans (List.suffix_append piece rest).isInfix

end InterfaceSchema.Utf8
