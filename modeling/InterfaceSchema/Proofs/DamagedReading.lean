import InterfaceSchema.Proofs.Damage

/-!
# Reading damaged bytes

The machine reads any bytes by the rule for damaged ones. What it knows of the bytes read since the
last character is put into one record: that they begin a character, and that the bytes which the
machine waits for are those which complete one. From that follows what each byte does. A byte within
the bounds goes on with the character, and the last one owed completes it; a byte outside the bounds
shows that no character goes on like that, so what was begun is one damaged piece, and the byte is
read where a character may begin.

## Main definitions

* `Utf8.Pending.Completes` — the bytes for which the machine waits.
* `Utf8.Pending.Begun` — what the machine knows of a character begun.
* `Utf8.textFrom` — the text that the machine reads on from a state.
-/

namespace InterfaceSchema.Utf8

/-! ## Characters begun -/

/-- The bytes that complete a character begun: one within the bounds, then as many others as are
owed. -/
def Pending.Completes (p : Pending) : List UInt8 → Prop
  | [] => False
  | b :: tails => (p.low ≤ b ∧ b ≤ p.high) ∧ tails.length + 1 = p.owed ∧ ∀ t ∈ tails, IsTail t

/-- What is known of the character begun with the bytes `read`. -/
structure Pending.Begun (p : Pending) (read : List UInt8) : Prop where
  nonempty : read ≠ []
  bounds : p.low ≤ p.high
  owed : 1 ≤ p.owed
  completes_iff : ∀ more, p.Completes more ↔ IsSequence (read ++ more)
  foldl_step : read.foldl Machine.step ⟨none, []⟩ = ⟨some p, []⟩

section Leads

variable {b : UInt8} {bits : Nat}

/-- What a byte is where a character may begin, by how many bytes the character has. -/
theorem lead_cases (b : UInt8) : (b ≤ 0x7F ∧ lead b = .complete (Char.ofNat b.toNat)) ∨
    (0xC2 ≤ b ∧ b ≤ 0xDF ∧ lead b = .opens ⟨1, 0x80, 0xBF, b.toNat - 0xC0⟩) ∨
    (0xE0 ≤ b ∧ b ≤ 0xEF ∧ lead b = .opens
      ⟨2, if b = 0xE0 then 0xA0 else 0x80, if b = 0xED then 0x9F else 0xBF, b.toNat - 0xE0⟩) ∨
    (0xF0 ≤ b ∧ b ≤ 0xF4 ∧ lead b = .opens
      ⟨3, if b = 0xF0 then 0x90 else 0x80, if b = 0xF4 then 0x8F else 0xBF, b.toNat - 0xF0⟩) ∨
    (0x80 ≤ b ∧ b < 0xC2 ∨ 0xF5 ≤ b) ∧ lead b = .damaged := by
  simp only [lead, UInt8.lt_iff_toNat_lt, UInt8.le_iff_toNat_le, ← UInt8.toNat_inj,
    UInt8.reduceToNat]
  split_ifs <;> grind

theorem completes_two (hlow : 0xC2 ≤ b) (hhigh : b ≤ 0xDF) (more : List UInt8) :
    (Pending.mk 1 0x80 0xBF bits).Completes more ↔ IsSequence (b :: more) := by
  constructor
  · intro h
    match more, h with
    | [_], h => exact .two hlow hhigh h.1
  · intro h
    cases h with
    | one ha => exact absurd (UInt8.le_trans hlow ha) (by decide)
    | two _ _ hc => exact ⟨hc, rfl, by simp⟩
    | three ha | four ha => exact absurd (UInt8.le_trans ha hhigh) (by decide)

theorem completes_three (hlow : 0xE0 ≤ b) (hhigh : b ≤ 0xEF) (more : List UInt8) :
    (Pending.mk 2 (if b = 0xE0 then 0xA0 else 0x80) (if b = 0xED then 0x9F else 0xBF)
      bits).Completes more ↔ IsSequence (b :: more) := by
  constructor
  · intro h
    match more, h with
    | [c, d], ⟨⟨hc, hc'⟩, _, htails⟩ =>
      apply IsSequence.three hlow hhigh _ (htails d (by simp))
      · grind
      · grind
      · unfold IsTail
        grind
  · intro h
    cases h with
    | one ha | two _ ha => exact absurd (UInt8.le_trans hlow ha) (by decide)
    | three _ _ hc hd hshort hsurrogate =>
      refine ⟨?_, rfl, by simpa using hd⟩
      unfold IsTail at hc
      grind
    | four ha => exact absurd (UInt8.le_trans ha hhigh) (by decide)

theorem completes_four (hlow : 0xF0 ≤ b) (hhigh : b ≤ 0xF4) (more : List UInt8) :
    (Pending.mk 3 (if b = 0xF0 then 0x90 else 0x80) (if b = 0xF4 then 0x8F else 0xBF)
      bits).Completes more ↔ IsSequence (b :: more) := by
  constructor
  · intro h
    match more, h with
    | [c, d, e], ⟨⟨hc, hc'⟩, _, htails⟩ =>
      apply IsSequence.four hlow hhigh _ (htails d (by simp)) (htails e (by simp))
      · grind
      · grind
      · unfold IsTail
        grind
  · intro h
    cases h with
    | one ha | two _ ha | three _ ha => exact absurd (UInt8.le_trans hlow ha) (by decide)
    | four _ _ hc hd he hshort hlarge =>
      refine ⟨?_, rfl, by simpa using ⟨hd, he⟩⟩
      unfold IsTail at hc
      grind

theorem not_isSequence_of_stray (hb : 0x80 ≤ b ∧ b < 0xC2 ∨ 0xF5 ≤ b) (more : List UInt8) :
    ¬IsSequence (b :: more) := by
  intro h
  cases h <;> grind

end Leads

theorem Machine.step_outside (output : List (Option Char)) {p : Pending} {b : UInt8}
    (h : ¬(p.low ≤ b ∧ b ≤ p.high)) :
    step ⟨some p, output⟩ b = step ⟨none, none :: output⟩ b :=
  if_neg h

namespace Pending

variable {p : Pending} {read : List UInt8} {b low high : UInt8} {owed bits : Nat}

theorem begun_of_lead (h : lead b = .opens p) : p.Begun [b] := by
  have hstep : [b].foldl Machine.step ⟨none, []⟩ = ⟨some p, []⟩ := Machine.step_opens [] h
  rcases lead_cases b with ⟨-, hlead⟩ | ⟨hlow, hhigh, hlead⟩ | ⟨hlow, hhigh, hlead⟩ |
    ⟨hlow, hhigh, hlead⟩ | ⟨-, hlead⟩
  all_goals
    rw [hlead] at h
    cases h
  · exact ⟨by simp, by simp, by simp, completes_two hlow hhigh, hstep⟩
  · exact ⟨by simp, by grind, by simp, completes_three hlow hhigh, hstep⟩
  · exact ⟨by simp, by grind, by simp, completes_four hlow hhigh, hstep⟩

/-- A byte that is not the last one owed leaves one less to be owed. -/
theorem completes_cons {bits' : Nat} (more : List UInt8) :
    (Pending.mk (owed + 2) low high bits).Completes (b :: more) ↔
      (low ≤ b ∧ b ≤ high) ∧ (Pending.mk (owed + 1) 0x80 0xBF bits').Completes more := by
  cases more with
  | nil => simp [Completes]
  | cons c tails => simp [Completes, IsTail, and_left_comm]

theorem Begun.next (h : (Pending.mk (owed + 2) low high bits).Begun read)
    (hb : low ≤ b ∧ b ≤ high) :
    (Pending.mk (owed + 1) 0x80 0xBF (bits * 64 + (b.toNat - 0x80))).Begun (read ++ [b]) := by
  refine ⟨by simp, by simp, by simp, fun more => ?_, ?_⟩
  · rw [List.append_assoc, List.singleton_append, ← h.completes_iff, completes_cons,
      and_iff_right hb]
  · rw [List.foldl_append, h.foldl_step]
    exact Machine.step_within_inner [] hb

/-- The last byte owed completes a character, and the machine reads the bytes of any character as
that character. So the number which it has put together from them is the right one. -/
theorem Begun.last (h : (Pending.mk 1 low high bits).Begun read) (hb : low ≤ b ∧ b ≤ high) :
    String.utf8EncodeChar (Char.ofNat (bits * 64 + (b.toNat - 0x80))) = read ++ [b] := by
  have hs : IsSequence (read ++ [b]) := (h.completes_iff [b]).1 ⟨hb, rfl, by simp⟩
  obtain ⟨c, hc⟩ := isSequence_iff.1 hs
  have hread := Machine.foldl_step_encodeChar [] c
  rw [hc, List.foldl_append, h.foldl_step, List.foldl_cons, Machine.step_within_last [] hb] at hread
  have hchar : Char.ofNat (bits * 64 + (b.toNat - 0x80)) = c := by simpa using hread
  rw [hchar, hc]

/-- A byte outside the bounds does not go on with the character begun. -/
theorem Begun.not_isSequence (h : p.Begun read) (hb : ¬(p.low ≤ b ∧ b ≤ p.high))
    (more : List UInt8) : ¬IsSequence (read ++ b :: more) := by
  intro hs
  exact hb ((h.completes_iff _).2 hs).1

theorem Begun.exists_isSequence (h : p.Begun read) : ∃ more ≠ [], IsSequence (read ++ more) := by
  refine ⟨p.low :: List.replicate (p.owed - 1) 0x80, by simp, ?_⟩
  apply (h.completes_iff _).1
  have howed : p.owed - 1 + 1 = p.owed := Nat.sub_add_cancel h.owed
  refine ⟨⟨UInt8.le_refl _, h.bounds⟩, by simpa using howed, ?_⟩
  intro t ht
  rw [List.eq_of_mem_replicate ht]
  exact ⟨by decide, by decide⟩

/-- A character that does not go on is a damaged piece. -/
theorem Begun.piece_cut (h : p.Begun read) {rest : List UInt8}
    (hnext : ∀ b ∈ rest.head?, ¬(p.low ≤ b ∧ b ≤ p.high)) : Piece rest read replacement := by
  obtain ⟨more, hmore, hs⟩ := h.exists_isSequence
  exact .cut h.nonempty hmore hs fun b hb => h.not_isSequence (hnext b hb)

end Pending

/-! ## Reading on -/

/-- The text that the machine reads from bytes behind a character begun, or where one may begin. -/
def textFrom (pending : Option Pending) (bytes : List UInt8) : List Char :=
  (bytes.foldl Machine.step ⟨pending, []⟩).finish.map (·.getD replacement)

section Reading

variable {pending next : Option Pending} {p : Pending} {b : UInt8} {read rest : List UInt8}
  {output : List (Option Char)}

theorem Machine.begin_append (output before : List (Option Char)) (b : UInt8) :
    begin (output ++ before) b = ⟨(begin output b).pending, (begin output b).output ++ before⟩ := by
  unfold begin
  cases lead b <;> rfl

/-- What was read before stays behind what is read. -/
theorem Machine.step_append (pending : Option Pending) (output before : List (Option Char))
    (b : UInt8) : step ⟨pending, output ++ before⟩ b =
      ⟨(step ⟨pending, output⟩ b).pending, (step ⟨pending, output⟩ b).output ++ before⟩ := by
  cases pending with
  | none => exact begin_append output before b
  | some p =>
    by_cases hb : p.low ≤ b ∧ b ≤ p.high
    · obtain ⟨_ | _ | owed, low, high, bits⟩ := p
      all_goals simp [step, if_pos hb]
    · simp only [step_outside _ hb]
      exact begin_append (none :: output) before b

theorem Machine.foldl_step_append (pending : Option Pending) (output before : List (Option Char))
    (bytes : List UInt8) : bytes.foldl step ⟨pending, output ++ before⟩ =
      ⟨(bytes.foldl step ⟨pending, output⟩).pending,
        (bytes.foldl step ⟨pending, output⟩).output ++ before⟩ := by
  induction bytes generalizing pending output with
  | nil => rfl
  | cons b rest ih =>
    rw [List.foldl_cons, step_append, ih]
    rfl

theorem Machine.finish_append (pending : Option Pending) (output before : List (Option Char)) :
    (Machine.mk pending (output ++ before)).finish =
      before.reverse ++ (Machine.mk pending output).finish := by
  cases pending <;> simp [finish]

/-- One byte gives what it completes, and reading goes on from the state behind it. -/
theorem textFrom_cons (h : Machine.step ⟨pending, []⟩ b = ⟨next, output⟩) :
    textFrom pending (b :: rest) =
      output.reverse.map (·.getD replacement) ++ textFrom next rest := by
  rw [textFrom, List.foldl_cons, h, ← List.nil_append output, Machine.foldl_step_append,
    Machine.finish_append, List.map_append]
  rfl

theorem textFrom_outside (h : ¬(p.low ≤ b ∧ b ≤ p.high)) :
    textFrom (some p) (b :: rest) = replacement :: textFrom none (b :: rest) := by
  have hstep : Machine.step ⟨some p, []⟩ b = ⟨(Machine.step ⟨none, []⟩ b).pending,
      (Machine.step ⟨none, []⟩ b).output ++ [none]⟩ := by
    rw [Machine.step_outside [] h]
    exact Machine.step_append none [] [none] b
  have hbegin : Machine.step ⟨none, []⟩ b =
      ⟨(Machine.step ⟨none, []⟩ b).pending, (Machine.step ⟨none, []⟩ b).output⟩ := rfl
  rw [textFrom_cons hstep, textFrom_cons hbegin]
  simp

/-- The machine reads by the rule where a character may begin if it does so behind the next byte. -/
theorem reads_textFrom_cons (hnone : Reads rest (textFrom none rest))
    (hsome : ∀ p read, p.Begun read → Reads (read ++ rest) (textFrom (some p) rest)) :
    Reads (b :: rest) (textFrom none (b :: rest)) := by
  rcases lead_cases b with ⟨hb, hlead⟩ | ⟨-, -, hlead⟩ | ⟨-, -, hlead⟩ | ⟨-, -, hlead⟩ | ⟨hb, hlead⟩
  · have hstep : Machine.step ⟨none, []⟩ b = ⟨none, [some (Char.ofNat b.toNat)]⟩ := by
      simp only [Machine.step, Machine.begin, hlead]
    rw [textFrom_cons hstep]
    exact .cons (piece_ascii hb rest) hnone
  iterate 3
    rw [textFrom_cons (Machine.step_opens [] hlead)]
    exact hsome _ _ (Pending.begun_of_lead hlead)
  · have hstep : Machine.step ⟨none, []⟩ b = ⟨none, [none]⟩ := by
      simp only [Machine.step, Machine.begin, hlead]
    have hpiece : Piece rest [b] replacement := .stray (not_isSequence_of_stray hb)
    rw [textFrom_cons hstep]
    exact .cons hpiece hnone

/-- Behind a character begun, a byte goes on with it, completes it, or shows it to be damaged. -/
theorem reads_textFrom_begun (h : p.Begun read) (hnone : Reads rest (textFrom none rest))
    (hsome : ∀ p read, p.Begun read → Reads (read ++ rest) (textFrom (some p) rest)) :
    Reads (read ++ b :: rest) (textFrom (some p) (b :: rest)) := by
  by_cases hb : p.low ≤ b ∧ b ≤ p.high
  · rw [List.append_cons]
    obtain ⟨_ | _ | owed, low, high, bits⟩ := p
    · exact absurd h.owed (by simp)
    · have hpiece : Piece rest (read ++ [b]) (Char.ofNat (bits * 64 + (b.toNat - 0x80))) := by
        rw [← h.last hb]
        exact .whole _
      rw [textFrom_cons (Machine.step_within_last [] hb)]
      simpa using Reads.cons hpiece hnone
    · rw [textFrom_cons (Machine.step_within_inner [] hb)]
      exact hsome _ _ (h.next hb)
  · rw [textFrom_outside hb]
    exact .cons (h.piece_cut (by simpa using hb)) (reads_textFrom_cons hnone hsome)

/-- The induction on the bytes carries both what is read where a character may begin and what is
read behind a character begun, since one byte leads from each to the other. -/
theorem reads_textFrom (bytes : List UInt8) : Reads bytes (textFrom none bytes) ∧
    ∀ p read, p.Begun read → Reads (read ++ bytes) (textFrom (some p) bytes) := by
  induction bytes with
  | nil =>
    refine ⟨.nil, fun p read h => ?_⟩
    exact .cons (h.piece_cut (by simp)) .nil
  | cons b rest ih =>
    obtain ⟨hnone, hsome⟩ := ih
    exact ⟨reads_textFrom_cons hnone hsome, fun p read h => reads_textFrom_begun h hnone hsome⟩

/-- The machine reads all bytes by the rule. -/
theorem reads_decodeLossy (bytes : List UInt8) : Reads bytes (decodeLossy bytes) :=
  (reads_textFrom bytes).1

end Reading

theorem reads_iff {bytes : List UInt8} {cs : List Char} :
    Reads bytes cs ↔ cs = decodeLossy bytes := by
  constructor
  · intro h
    exact h.unique (reads_decodeLossy bytes)
  · rintro rfl
    exact reads_decodeLossy bytes

/-- A character below 0x80 is read exactly where its byte is. -/
theorem mem_decodeLossy_iff {bytes : List UInt8} {x : UInt8} (hx : x ≤ 0x7F) :
    Char.ofNat x.toNat ∈ decodeLossy bytes ↔ x ∈ bytes := by
  have hlow (b : UInt8) : b ≤ 0x7F ↔ b < 0x80 := by grind
  have hfilter := (reads_decodeLossy bytes).filter_ascii
  constructor
  · intro hmem
    have hascii : Char.ofNat x.toNat ∈ (decodeLossy bytes).filter (·.toNat < 0x80) := by
      refine List.mem_filter.2 ⟨hmem, ?_⟩
      rw [toNat_charOfNat_toNat, decide_eq_true_iff]
      exact UInt8.lt_iff_toNat_lt.1 ((hlow x).1 hx)
    rw [hfilter, List.mem_map] at hascii
    obtain ⟨b, hb, hchar⟩ := hascii
    have hnumber := congrArg Char.toNat hchar
    rw [toNat_charOfNat_toNat, toNat_charOfNat_toNat] at hnumber
    exact UInt8.toNat_inj.1 hnumber ▸ (List.mem_filter.1 hb).1
  · intro hmem
    have hascii : x ∈ bytes.filter (· < 0x80) :=
      List.mem_filter.2 ⟨hmem, decide_eq_true ((hlow x).1 hx)⟩
    have hread := List.mem_map_of_mem (f := fun b => Char.ofNat b.toNat) hascii
    rw [← hfilter] at hread
    exact (List.mem_filter.1 hread).1

end InterfaceSchema.Utf8
