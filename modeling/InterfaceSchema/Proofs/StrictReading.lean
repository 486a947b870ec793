import InterfaceSchema.Proofs.DamagedReading
import Mathlib.Data.List.Induction

/-!
# Strict reading

Bytes are read strictly exactly if they are the bytes of a text, and then as this text. As long as
the machine has not met a damaged piece, what it has put out are the characters of the bytes read,
up to those with which a character has been begun.

## Main definitions

* `Utf8.Machine.Undamaged` — what is known of the machine until it meets a damaged piece.
-/

namespace InterfaceSchema.Utf8

namespace Machine

/-- Whether a state is one that the machine is in when it has read the given bytes and none of them
was damaged. -/
inductive Undamaged : Machine → List UInt8 → Prop where
  | between (cs : List Char) : Undamaged ⟨none, (cs.map some).reverse⟩ (encode cs)
  | within (cs : List Char) {p : Pending} {read : List UInt8} (h : p.Begun read) :
    Undamaged ⟨some p, (cs.map some).reverse⟩ (encode cs ++ read)

variable {m : Machine} {bytes : List UInt8}

/-- A damaged piece that has been put out stays there. -/
theorem mem_output_begin {output : List (Option Char)} (h : none ∈ output) (b : UInt8) :
    none ∈ (begin output b).output := by
  unfold begin
  cases lead b with
  | complete c => exact List.mem_cons_of_mem _ h
  | opens p => exact h
  | damaged => exact List.mem_cons_self

theorem mem_output_step (h : none ∈ m.output) (b : UInt8) : none ∈ (m.step b).output := by
  obtain ⟨pending, output⟩ := m
  cases pending with
  | none => exact mem_output_begin h b
  | some p =>
    by_cases hb : p.low ≤ b ∧ b ≤ p.high
    · obtain ⟨_ | _ | owed, low, high, bits⟩ := p
      · simpa [step, hb] using h
      · rw [step_within_last _ hb]
        exact List.mem_cons_of_mem _ h
      · rw [step_within_inner _ hb]
        exact h
    · rw [step_outside _ hb]
      exact mem_output_begin List.mem_cons_self b

theorem between_concat (cs : List Char) (c : Char) :
    Undamaged ⟨none, some c :: (cs.map some).reverse⟩
      (encode cs ++ String.utf8EncodeChar c) := by
  have h := Undamaged.between (cs ++ [c])
  rw [List.map_append, List.reverse_append, encode_append, encode_cons, encode_nil,
    List.append_nil] at h
  exact h

theorem undamaged_begin (cs : List Char) (b : UInt8) :
    (begin (cs.map some).reverse b).Undamaged (encode cs ++ [b]) ∨
      none ∈ (begin (cs.map some).reverse b).output := by
  rcases lead_cases b with ⟨hb, hlead⟩ | hlead
  · rw [begin, hlead, ← encodeChar_one hb]
    exact .inl (between_concat cs _)
  · cases hopens : lead b with
    | complete c => rw [hopens] at hlead; simp at hlead
    | opens p =>
      rw [begin, hopens]
      exact .inl (.within cs (Pending.begun_of_lead hopens))
    | damaged =>
      rw [begin, hopens]
      exact .inr List.mem_cons_self

/-- A byte that is not damaged itself, and does not show a character begun to be, goes on with what
was read. -/
theorem Undamaged.step (h : m.Undamaged bytes) (b : UInt8) :
    (m.step b).Undamaged (bytes ++ [b]) ∨ none ∈ (m.step b).output := by
  cases h with
  | between cs => exact undamaged_begin cs b
  | @within cs p read h =>
    rw [List.append_assoc]
    by_cases hb : p.low ≤ b ∧ b ≤ p.high
    · obtain ⟨_ | _ | owed, low, high, bits⟩ := p
      · exact absurd h.owed (by simp)
      · rw [step_within_last _ hb, ← h.last hb]
        exact .inl (between_concat cs _)
      · rw [step_within_inner _ hb]
        exact .inl (.within cs (h.next hb))
    · rw [step_outside _ hb]
      exact .inr (mem_output_begin List.mem_cons_self b)

theorem undamaged_foldl_step (bytes : List UInt8) :
    (bytes.foldl step start).Undamaged bytes ∨ none ∈ (bytes.foldl step start).output := by
  induction bytes using List.reverseRecOn with
  | nil => exact .inl (.between [])
  | append_singleton bytes b ih =>
    rw [List.foldl_append, List.foldl_cons, List.foldl_nil]
    rcases ih with h | h
    · exact h.step b
    · exact .inr (mem_output_step h b)

/-- If nothing is damaged, not even at the end, the bytes are those of the characters put out. -/
theorem encode_of_finish {cs : List Char} (h : (bytes.foldl step start).finish = cs.map some) :
    encode cs = bytes := by
  have hnone : none ∉ (bytes.foldl step start).finish := by simp [h]
  rcases undamaged_foldl_step bytes with hm | hm
  · generalize bytes.foldl step start = m at h hnone hm
    cases hm with
    | between ds =>
      have hchars : ds.map some = cs.map some := by simpa [finish] using h
      rw [(List.map_inj_right fun _ _ => Option.some.inj).1 hchars]
    | within ds hbegun => simp [finish] at hnone
  · generalize bytes.foldl step start = m at hnone hm
    obtain ⟨_ | p, output⟩ := m
    · exact absurd (List.mem_reverse.2 hm) hnone
    · simp [finish] at hnone

end Machine

theorem mapM_id_eq_some_iff {pieces : List (Option Char)} {cs : List Char} :
    pieces.mapM id = some cs ↔ pieces = cs.map some := by
  induction pieces generalizing cs with
  | nil => cases cs <;> simp
  | cons piece rest ih =>
    cases piece with
    | none => cases cs <;> simp
    | some c =>
      have hcons : (some c :: rest).mapM id = (rest.mapM id).map (c :: ·) := by
        rw [List.mapM_cons]
        cases rest.mapM id <;> rfl
      rw [hcons, Option.map_eq_some_iff]
      cases cs with
      | nil => simp
      | cons d ds => grind

/-- Bytes are read strictly as a text exactly if they are its bytes. -/
theorem decode?_eq_some_iff {bytes : List UInt8} {cs : List Char} :
    decode? bytes = some cs ↔ encode cs = bytes := by
  constructor
  · intro h
    exact Machine.encode_of_finish (mapM_id_eq_some_iff.1 h)
  · rintro rfl
    exact decode?_encode cs

end InterfaceSchema.Utf8
