import InterfaceSchema.Proofs.Encoding

/-!
# Well-formed bytes

Which bytes are the bytes of a character can be said without the number of the character: by ranges
for the first byte, which tells how many bytes follow it, and for the second one, which rules out
what fewer bytes can tell, the surrogates, and what is no code point. These sequences are exactly
the encodings of characters.

## Main definitions

* `Utf8.IsSequence` — the bytes of one character.
* `Utf8.WellFormed` — the bytes of characters one after the other.
-/

namespace InterfaceSchema.Utf8

/-- The bytes that may stand behind the first one of a character. -/
def IsTail (b : UInt8) : Prop :=
  0x80 ≤ b ∧ b ≤ 0xBF

/-- The bytes of one character, by their number. -/
inductive IsSequence : List UInt8 → Prop where
  | one {a : UInt8} (ha : a ≤ 0x7F) : IsSequence [a]
  | two {a b : UInt8} (hlow : 0xC2 ≤ a) (hhigh : a ≤ 0xDF) (hb : IsTail b) : IsSequence [a, b]
  | three {a b c : UInt8} (hlow : 0xE0 ≤ a) (hhigh : a ≤ 0xEF) (hb : IsTail b) (hc : IsTail c)
    (hshort : a = 0xE0 → 0xA0 ≤ b) (hsurrogate : a = 0xED → b ≤ 0x9F) : IsSequence [a, b, c]
  | four {a b c d : UInt8} (hlow : 0xF0 ≤ a) (hhigh : a ≤ 0xF4) (hb : IsTail b) (hc : IsTail c)
    (hd : IsTail d) (hshort : a = 0xF0 → 0x90 ≤ b) (hlarge : a = 0xF4 → b ≤ 0x8F) :
    IsSequence [a, b, c, d]

/-- The bytes of characters one after the other. -/
inductive WellFormed : List UInt8 → Prop where
  | nil : WellFormed []
  | append {s rest : List UInt8} (hs : IsSequence s) (hrest : WellFormed rest) :
    WellFormed (s ++ rest)

/-! ## Encodings -/

theorem isTail_tail (n : Nat) : IsTail (tail n) := tail_bounds n

theorem isSequence_encodeChar (c : Char) : IsSequence (String.utf8EncodeChar c) := by
  have hbounds := toNat_bounds c
  rw [utf8EncodeChar_eq]
  split_ifs
  · apply IsSequence.one
    simp only [UInt8.le_iff_toNat_le, UInt8.toNat_ofNat', UInt8.reduceToNat]
    omega
  · apply IsSequence.two _ _ (isTail_tail _)
    all_goals
      simp only [UInt8.le_iff_toNat_le, UInt8.toNat_ofNat', UInt8.reduceToNat]
      omega
  · apply IsSequence.three _ _ (isTail_tail _) (isTail_tail _)
    all_goals
      simp only [UInt8.le_iff_toNat_le, ← UInt8.toNat_inj, UInt8.toNat_ofNat', toNat_tail,
        UInt8.reduceToNat]
      omega
  · apply IsSequence.four _ _ (isTail_tail _) (isTail_tail _) (isTail_tail _)
    all_goals
      simp only [UInt8.le_iff_toNat_le, ← UInt8.toNat_inj, UInt8.toNat_ofNat', toNat_tail,
        UInt8.reduceToNat]
      omega

section Numbers

variable {a b c d : UInt8} {n : Nat}

theorem ofNat_eq (h : a.toNat = n) : UInt8.ofNat n = a := by
  rw [← h, UInt8.ofNat_toNat]

theorem tail_eq (h : a.toNat = n % 64 + 128) : tail n = a := by
  rw [← UInt8.toNat_inj, toNat_tail, h]

theorem toNat_charOfNat (h : n < 0xD800 ∨ 0xDFFF < n ∧ n < 0x110000) :
    (Char.ofNat n).toNat = n := by
  rw [Char.ofNat, dif_pos (h : n.isValidChar)]
  rfl

/-- The first byte carries the highest bits of the number and every other one six bits below. -/
theorem exists_encodeChar_two (hlow : 0xC2 ≤ a) (hhigh : a ≤ 0xDF) (hb : IsTail b) :
    ∃ x, String.utf8EncodeChar x = [a, b] := by
  obtain ⟨hb, hb'⟩ := hb
  simp only [UInt8.le_iff_toNat_le, UInt8.reduceToNat] at hlow hhigh hb hb'
  obtain ⟨n, hn⟩ : ∃ n, n = (a.toNat - 192) * 64 + (b.toNat - 128) := ⟨_, rfl⟩
  have hx : (Char.ofNat n).toNat = n := toNat_charOfNat (by omega)
  refine ⟨Char.ofNat n, ?_⟩
  rw [utf8EncodeChar_eq, hx, if_neg (by omega), if_pos (by omega), ofNat_eq (a := a) (by omega),
    tail_eq (a := b) (by omega)]

theorem exists_encodeChar_three (hlow : 0xE0 ≤ a) (hhigh : a ≤ 0xEF) (hb : IsTail b)
    (hc : IsTail c) (hshort : a = 0xE0 → 0xA0 ≤ b) (hsurrogate : a = 0xED → b ≤ 0x9F) :
    ∃ x, String.utf8EncodeChar x = [a, b, c] := by
  obtain ⟨hb, hb'⟩ := hb
  obtain ⟨hc, hc'⟩ := hc
  simp only [UInt8.le_iff_toNat_le, ← UInt8.toNat_inj, UInt8.reduceToNat] at *
  obtain ⟨n, hn⟩ : ∃ n, n = ((a.toNat - 224) * 64 + (b.toNat - 128)) * 64 + (c.toNat - 128) :=
    ⟨_, rfl⟩
  have hx : (Char.ofNat n).toNat = n := toNat_charOfNat (by omega)
  refine ⟨Char.ofNat n, ?_⟩
  rw [utf8EncodeChar_eq, hx, if_neg (by omega), if_neg (by omega), if_pos (by omega),
    ofNat_eq (a := a) (by omega), tail_eq (a := b) (by omega), tail_eq (a := c) (by omega)]

theorem exists_encodeChar_four (hlow : 0xF0 ≤ a) (hhigh : a ≤ 0xF4) (hb : IsTail b)
    (hc : IsTail c) (hd : IsTail d) (hshort : a = 0xF0 → 0x90 ≤ b) (hlarge : a = 0xF4 → b ≤ 0x8F) :
    ∃ x, String.utf8EncodeChar x = [a, b, c, d] := by
  obtain ⟨hb, hb'⟩ := hb
  obtain ⟨hc, hc'⟩ := hc
  obtain ⟨hd, hd'⟩ := hd
  simp only [UInt8.le_iff_toNat_le, ← UInt8.toNat_inj, UInt8.reduceToNat] at *
  obtain ⟨n, hn⟩ : ∃ n, n = (((a.toNat - 240) * 64 + (b.toNat - 128)) * 64 + (c.toNat - 128)) * 64
      + (d.toNat - 128) := ⟨_, rfl⟩
  have hx : (Char.ofNat n).toNat = n := toNat_charOfNat (by omega)
  refine ⟨Char.ofNat n, ?_⟩
  rw [utf8EncodeChar_eq, hx, if_neg (by omega), if_neg (by omega), if_neg (by omega),
    ofNat_eq (a := a) (by omega), tail_eq (a := b) (by omega), tail_eq (a := c) (by omega),
    tail_eq (a := d) (by omega)]

theorem encodeChar_one (ha : a ≤ 0x7F) :
    String.utf8EncodeChar (Char.ofNat a.toNat) = [a] := by
  simp only [UInt8.le_iff_toNat_le, UInt8.reduceToNat] at ha
  have hx : (Char.ofNat a.toNat).toNat = a.toNat := toNat_charOfNat (by omega)
  rw [utf8EncodeChar_eq, hx, if_pos ha, UInt8.ofNat_toNat]

end Numbers

theorem isSequence_iff {s : List UInt8} :
    IsSequence s ↔ ∃ c, String.utf8EncodeChar c = s := by
  constructor
  · intro h
    cases h with
    | one ha => exact ⟨_, encodeChar_one ha⟩
    | two hlow hhigh hb => exact exists_encodeChar_two hlow hhigh hb
    | three hlow hhigh hb hc hshort hsurrogate =>
      exact exists_encodeChar_three hlow hhigh hb hc hshort hsurrogate
    | four hlow hhigh hb hc hd hshort hlarge =>
      exact exists_encodeChar_four hlow hhigh hb hc hd hshort hlarge
  · rintro ⟨c, rfl⟩
    exact isSequence_encodeChar c

/-- The well-formed byte strings are the encodings of texts. -/
theorem wellFormed_iff {bytes : List UInt8} : WellFormed bytes ↔ ∃ cs, encode cs = bytes := by
  constructor
  · intro h
    induction h with
    | nil => exact ⟨[], rfl⟩
    | append hs _ ih =>
      obtain ⟨c, rfl⟩ := isSequence_iff.1 hs
      obtain ⟨cs, rfl⟩ := ih
      exact ⟨c :: cs, rfl⟩
  · rintro ⟨cs, rfl⟩
    induction cs with
    | nil => exact .nil
    | cons c cs ih => exact .append (isSequence_encodeChar c) ih

/-! ## Parts of a sequence -/

section Parts

variable {a b : UInt8} {s t : List UInt8}

/-- The first byte tells how many bytes follow it. -/
theorem IsSequence.length_eq (h : IsSequence (a :: s)) :
    s.length = if a ≤ 0x7F then 0 else if a ≤ 0xDF then 1 else if a ≤ 0xEF then 2 else 3 := by
  cases h <;> simp only [UInt8.le_iff_toNat_le, UInt8.reduceToNat, List.length_cons,
    List.length_nil] at * <;> split_ifs <;> omega

theorem IsSequence.length_le (h : IsSequence s) : s.length ≤ 4 := by
  cases h <;> simp

theorem IsSequence.ne_nil (h : IsSequence s) : s ≠ [] := by
  cases h <;> simp

/-- No sequence is a part of another one that begins with it. -/
theorem IsSequence.eq_nil_of_append (hs : IsSequence s) (h : IsSequence (s ++ t)) : t = [] := by
  obtain ⟨a, s, rfl⟩ := List.exists_cons_of_ne_nil hs.ne_nil
  rw [List.cons_append] at h
  have hlength := h.length_eq
  rw [List.length_append, ← hs.length_eq] at hlength
  exact List.eq_nil_of_length_eq_zero (by omega)

/-- A byte below 0x80 is no part of a longer sequence. -/
theorem IsSequence.high (h : IsSequence s) (hlength : 1 < s.length) : ∀ b ∈ s, 0x80 ≤ b := by
  cases h <;> simp only [List.mem_cons, List.not_mem_nil, or_false, forall_eq_or_imp, forall_eq,
    IsTail, UInt8.le_iff_toNat_le, UInt8.reduceToNat, List.length_cons, List.length_nil] at *
    <;> omega

end Parts

end InterfaceSchema.Utf8
