import InterfaceSchema.Text.Utf8
import Mathlib.Tactic.Common

/-!
# Characters and their bytes

The machine that reads bytes as characters undoes their encoding. It is enough to know what it does
with the bytes of one character, which it reads from a state without a character begun and leaves in
such a state again.

## Main definitions

* `Utf8.tail` — the byte that carries six bits of a character after the first byte.
-/

namespace InterfaceSchema.Utf8

/-! ## Texts -/

@[simp] theorem encode_nil : encode [] = [] := rfl

theorem encode_cons (c : Char) (cs : List Char) :
    encode (c :: cs) = String.utf8EncodeChar c ++ encode cs := rfl

@[simp] theorem encode_append (cs ds : List Char) : encode (cs ++ ds) = encode cs ++ encode ds :=
  List.flatMap_append

theorem utf8_append (s t : String) : utf8 (s ++ t) = utf8 s ++ utf8 t := by
  rw [utf8, String.toList_append, encode_append]
  rfl

/-! ## One character -/

/-- A byte after the first one of a character, with the lowest six bits of a number. -/
def tail (n : Nat) : UInt8 :=
  UInt8.ofNat (n % 64 + 128)

theorem toNat_tail (n : Nat) : (tail n).toNat = n % 64 + 128 := by
  rw [tail, UInt8.toNat_ofNat']
  omega

theorem toNat_ofNat_of_lt {n : Nat} (h : n < 256) : (UInt8.ofNat n).toNat = n := by
  rw [UInt8.toNat_ofNat']
  omega

theorem utf8EncodeChar_eq (c : Char) : String.utf8EncodeChar c =
    if c.toNat ≤ 0x7F then [UInt8.ofNat c.toNat]
    else if c.toNat ≤ 0x7FF then [UInt8.ofNat (c.toNat / 64 % 32 + 192), tail c.toNat]
    else if c.toNat ≤ 0xFFFF then
      [UInt8.ofNat (c.toNat / 4096 % 16 + 224), tail (c.toNat / 64), tail c.toNat]
    else [UInt8.ofNat (c.toNat / 262144 % 8 + 240), tail (c.toNat / 4096), tail (c.toNat / 64),
      tail c.toNat] := rfl

/-- The numbers of characters leave out the surrogates. -/
theorem toNat_bounds (c : Char) : c.toNat < 0xD800 ∨ 0xDFFF < c.toNat ∧ c.toNat < 0x110000 :=
  c.valid

/-- A byte of a character stands for the character alone, or for no character below 0x80. -/
theorem of_mem_utf8EncodeChar {c : Char} {b : UInt8} (h : b ∈ String.utf8EncodeChar c) :
    b.toNat = c.toNat ∨ 0x80 ≤ b.toNat := by
  have htail : ∀ n, 0x80 ≤ (tail n).toNat := fun n => by
    rw [toNat_tail]
    omega
  have hfirst : ∀ {n}, 0x80 ≤ n → n < 256 → 0x80 ≤ (UInt8.ofNat n).toNat := fun hn hn' => by
    rw [toNat_ofNat_of_lt hn']
    exact hn
  rw [utf8EncodeChar_eq] at h
  split_ifs at h
  · rw [List.mem_singleton.1 h, toNat_ofNat_of_lt (by omega)]
    exact .inl rfl
  all_goals
    refine .inr ?_
    simp only [List.mem_cons, List.not_mem_nil, or_false] at h
    rcases h with rfl | h
    · exact hfirst (by omega) (by omega)
    · rcases h with rfl | rfl | rfl <;> exact htail _

section Leads

variable {n : Nat}

theorem lead_of_lt (h : n < 0x80) : lead (UInt8.ofNat n) = .complete (Char.ofNat n) := by
  have hn : (UInt8.ofNat n).toNat = n := toNat_ofNat_of_lt (by omega)
  simp only [lead, UInt8.lt_iff_toNat_lt, hn, UInt8.reduceToNat]
  rw [if_pos h]

theorem lead_two (hlow : 0xC2 ≤ n) (hhigh : n < 0xE0) :
    lead (UInt8.ofNat n) = .opens ⟨1, 0x80, 0xBF, n - 0xC0⟩ := by
  have hn : (UInt8.ofNat n).toNat = n := toNat_ofNat_of_lt (by omega)
  simp only [lead, UInt8.lt_iff_toNat_lt, hn, UInt8.reduceToNat]
  rw [if_neg (by omega), if_neg (by omega), if_pos hhigh]

theorem lead_three (hlow : 0xE0 ≤ n) (hhigh : n < 0xF0) : lead (UInt8.ofNat n) =
    .opens ⟨2, if n = 0xE0 then 0xA0 else 0x80, if n = 0xED then 0x9F else 0xBF, n - 0xE0⟩ := by
  have hn : (UInt8.ofNat n).toNat = n := toNat_ofNat_of_lt (by omega)
  simp only [lead, UInt8.lt_iff_toNat_lt, ← UInt8.toNat_inj, hn, UInt8.reduceToNat]
  split_ifs <;> first | rfl | omega

theorem lead_four (hlow : 0xF0 ≤ n) (hhigh : n < 0xF5) : lead (UInt8.ofNat n) =
    .opens ⟨3, if n = 0xF0 then 0x90 else 0x80, if n = 0xF4 then 0x8F else 0xBF, n - 0xF0⟩ := by
  have hn : (UInt8.ofNat n).toNat = n := toNat_ofNat_of_lt (by omega)
  simp only [lead, UInt8.lt_iff_toNat_lt, ← UInt8.toNat_inj, hn, UInt8.reduceToNat]
  split_ifs <;> first | rfl | omega

end Leads

theorem le_tail {b : UInt8} {n : Nat} (h : b.toNat ≤ n % 64 + 128) : b ≤ tail n := by
  rw [UInt8.le_iff_toNat_le, toNat_tail]
  exact h

theorem tail_le {b : UInt8} {n : Nat} (h : n % 64 + 128 ≤ b.toNat) : tail n ≤ b := by
  rw [UInt8.le_iff_toNat_le, toNat_tail]
  exact h

theorem tail_bounds (n : Nat) : 0x80 ≤ tail n ∧ tail n ≤ 0xBF :=
  ⟨le_tail (by simp only [UInt8.reduceToNat]; omega),
    tail_le (by simp only [UInt8.reduceToNat]; omega)⟩

namespace Machine

variable (output : List (Option Char))

theorem step_opens {b : UInt8} {p : Pending} (h : lead b = .opens p) :
    step ⟨none, output⟩ b = ⟨some p, output⟩ := by
  simp only [step, begin, h]

section Within

variable {b low high : UInt8} {n bits : Nat}

/-- The last byte of a character completes it. -/
theorem step_within_last (h : low ≤ b ∧ b ≤ high) : step ⟨some ⟨1, low, high, bits⟩, output⟩ b =
    ⟨none, some (Char.ofNat (bits * 64 + (b.toNat - 0x80))) :: output⟩ :=
  if_pos h

/-- Any byte before the last one adds its bits. -/
theorem step_within_inner {owed : Nat} (h : low ≤ b ∧ b ≤ high) :
    step ⟨some ⟨owed + 2, low, high, bits⟩, output⟩ b =
      ⟨some ⟨owed + 1, 0x80, 0xBF, bits * 64 + (b.toNat - 0x80)⟩, output⟩ :=
  if_pos h

theorem toNat_tail_sub (n : Nat) : (tail n).toNat - 0x80 = n % 64 := by
  rw [toNat_tail]
  omega

theorem step_last (hlow : low ≤ tail n) (hhigh : tail n ≤ high) (bits : Nat) :
    step ⟨some ⟨1, low, high, bits⟩, output⟩ (tail n) =
      ⟨none, some (Char.ofNat (bits * 64 + n % 64)) :: output⟩ := by
  rw [step_within_last output ⟨hlow, hhigh⟩, toNat_tail_sub]

theorem step_inner (hlow : low ≤ tail n) (hhigh : tail n ≤ high) (owed bits : Nat) :
    step ⟨some ⟨owed + 2, low, high, bits⟩, output⟩ (tail n) =
      ⟨some ⟨owed + 1, 0x80, 0xBF, bits * 64 + n % 64⟩, output⟩ := by
  rw [step_within_inner output ⟨hlow, hhigh⟩, toNat_tail_sub]

end Within

section Lengths

variable {n : Nat}

theorem foldl_step_one (h : n < 0x80) :
    [UInt8.ofNat n].foldl step ⟨none, output⟩ = ⟨none, some (Char.ofNat n) :: output⟩ := by
  simp only [List.foldl_cons, List.foldl_nil, step, begin, lead_of_lt h]

theorem foldl_step_two (hlow : 0x80 ≤ n) (hhigh : n < 0x800) :
    [UInt8.ofNat (n / 64 % 32 + 192), tail n].foldl step ⟨none, output⟩ =
      ⟨none, some (Char.ofNat n) :: output⟩ := by
  have htail := tail_bounds n
  have hsum : (n / 64 % 32 + 192 - 192) * 64 + n % 64 = n := by omega
  rw [List.foldl_cons, step_opens _ (lead_two (by omega) (by omega)), List.foldl_cons,
    step_last _ htail.1 htail.2, List.foldl_nil, hsum]

/-- The byte behind the first one excludes what two bytes can tell, and the surrogates. -/
theorem foldl_step_three (hlow : 0x800 ≤ n) (hhigh : n < 0x10000)
    (hvalid : n < 0xD800 ∨ 0xDFFF < n) :
    [UInt8.ofNat (n / 4096 % 16 + 224), tail (n / 64), tail n].foldl step ⟨none, output⟩ =
      ⟨none, some (Char.ofNat n) :: output⟩ := by
  have htail := tail_bounds n
  have hleast : (if n / 4096 % 16 + 224 = 0xE0 then 0xA0 else 0x80) ≤ tail (n / 64) := by
    split_ifs <;> exact le_tail (by simp only [UInt8.reduceToNat]; omega)
  have hgreatest : tail (n / 64) ≤ (if n / 4096 % 16 + 224 = 0xED then 0x9F else 0xBF) := by
    split_ifs <;> exact tail_le (by simp only [UInt8.reduceToNat]; omega)
  have hsum : ((n / 4096 % 16 + 224 - 224) * 64 + n / 64 % 64) * 64 + n % 64 = n := by omega
  rw [List.foldl_cons, step_opens _ (lead_three (by omega) (by omega)), List.foldl_cons,
    step_inner _ hleast hgreatest, List.foldl_cons, step_last _ htail.1 htail.2, List.foldl_nil,
    hsum]

/-- The byte behind the first one excludes what three bytes can tell, and what is too large. -/
theorem foldl_step_four (hlow : 0x10000 ≤ n) (hhigh : n < 0x110000) :
    [UInt8.ofNat (n / 262144 % 8 + 240), tail (n / 4096), tail (n / 64), tail n].foldl step
      ⟨none, output⟩ = ⟨none, some (Char.ofNat n) :: output⟩ := by
  have htail := tail_bounds
  have hleast : (if n / 262144 % 8 + 240 = 0xF0 then 0x90 else 0x80) ≤ tail (n / 4096) := by
    split_ifs <;> exact le_tail (by simp only [UInt8.reduceToNat]; omega)
  have hgreatest : tail (n / 4096) ≤ (if n / 262144 % 8 + 240 = 0xF4 then 0x8F else 0xBF) := by
    split_ifs <;> exact tail_le (by simp only [UInt8.reduceToNat]; omega)
  have hsum : (((n / 262144 % 8 + 240 - 240) * 64 + n / 4096 % 64) * 64 + n / 64 % 64) * 64
      + n % 64 = n := by omega
  rw [List.foldl_cons, step_opens _ (lead_four (by omega) (by omega)), List.foldl_cons,
    step_inner _ hleast hgreatest, List.foldl_cons, step_inner _ (htail _).1 (htail _).2,
    List.foldl_cons, step_last _ (htail n).1 (htail n).2, List.foldl_nil, hsum]

end Lengths

/-- The bytes of a character are read as the character. -/
theorem foldl_step_encodeChar (c : Char) :
    (String.utf8EncodeChar c).foldl step ⟨none, output⟩ = ⟨none, some c :: output⟩ := by
  have hbounds := toNat_bounds c
  rw [utf8EncodeChar_eq]
  split_ifs with h1 h2 h3
  · rw [foldl_step_one output (by omega), Char.ofNat_toNat]
  · rw [foldl_step_two output (by omega) (by omega), Char.ofNat_toNat]
  · rw [foldl_step_three output (by omega) (by omega) (by omega), Char.ofNat_toNat]
  · rw [foldl_step_four output (by omega) (by omega), Char.ofNat_toNat]

theorem foldl_step_encode (cs : List Char) :
    (encode cs).foldl step ⟨none, output⟩ = ⟨none, (cs.map some).reverse ++ output⟩ := by
  induction cs generalizing output with
  | nil => rfl
  | cons c cs ih =>
    rw [encode_cons, List.foldl_append, foldl_step_encodeChar, ih]
    simp

end Machine

/-! ## Reading -/

theorem pieces_encode (cs : List Char) : pieces (encode cs) = cs.map some := by
  rw [pieces, Machine.start, Machine.foldl_step_encode]
  simp [Machine.finish]

theorem decodeLossy_encode (cs : List Char) : decodeLossy (encode cs) = cs := by
  rw [decodeLossy, pieces_encode, List.map_map]
  exact List.map_id cs

theorem lossyText_utf8 (s : String) : lossyText (utf8 s) = s := by
  rw [lossyText, utf8, decodeLossy_encode, String.ofList_toList]

theorem decode?_encode (cs : List Char) : decode? (encode cs) = some cs := by
  rw [decode?, pieces_encode]
  induction cs with
  | nil => rfl
  | cons c cs ih => rw [List.map_cons, List.mapM_cons, ih]; rfl

end InterfaceSchema.Utf8
