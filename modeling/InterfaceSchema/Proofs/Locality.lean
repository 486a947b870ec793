import InterfaceSchema.Proofs.JsonSyntax
import InterfaceSchema.Proofs.TypedReading

/-!
# What stands behind strings and numbers

Whether a string or a number can be read, and what is read, does not depend on what stands behind
it, as long as a number is not continued there. Only the reason of a failure tells where in the
whole text it showed, so reasons are left out here.

Strings are followed from escape to escape, since the two halves of a surrogate pair are read
together; numbers are followed from part to part.

## Main definitions

* `Reader.attempt`, `Reader.result?` — what a reader makes of a text, without reasons.
* `Steady` — readers that take nothing and do not look at the text.
-/

namespace InterfaceSchema.Json

open Reader

/-! ## Attempts -/

namespace Reader

variable {α β : Type} {text rest : List UInt8}

/-- What a reader makes of a text and what it leaves of it, if it does not fail. -/
def attempt (reader : Reader α) (text : List UInt8) : Option (α × List UInt8) :=
  (reader text).toOption

/-- What a reader makes of a text, if it does not fail. -/
def result? (reader : Reader α) (text : List UInt8) : Option α :=
  (reader.attempt text).map Prod.fst

@[simp] theorem attempt_pure (a : α) (text : List UInt8) :
    (pure a : Reader α).attempt text = some (a, text) := rfl

@[simp] theorem attempt_bind (x : Reader α) (f : α → Reader β) (text : List UInt8) :
    (x >>= f).attempt text = (x.attempt text).bind fun p => (f p.1).attempt p.2 := by
  change ((x text >>= fun p => f p.1 p.2).toOption) = _
  rw [attempt]
  cases x text <;> rfl

@[simp] theorem attempt_failAfter (fault : Fault) (text : List UInt8) :
    (failAfter fault : Reader α).attempt text = none := rfl

@[simp] theorem attempt_failAt (fault : Fault) (text : List UInt8) :
    (failAt fault : Reader α).attempt text = none := rfl

@[simp] theorem attempt_get (text : List UInt8) :
    (get : Reader (List UInt8)).attempt text = some (text, text) := rfl

@[simp] theorem attempt_skip (text : List UInt8) : skip.attempt text = some ((), text.tail) := rfl

@[simp] theorem attempt_peek? (text : List UInt8) :
    peek?.attempt text = some (text.head?.map charOf, text) := rfl

theorem toOption_eq_some_iff {ε : Type} {x : Except ε α} {a : α} :
    x.toOption = some a ↔ x = .ok a := by
  cases x <;> simp [Except.toOption]

theorem attempt_of_eq {x : Reader α} {a : α} (h : x text = .ok (a, rest)) :
    x.attempt text = some (a, rest) := by
  rw [attempt, h]
  rfl

theorem attempt_map (x : Reader α) (f : α → β) (text : List UInt8) :
    (do return f (← x) : Reader β).attempt text =
      (x.attempt text).map fun p => (f p.1, p.2) := by
  rw [attempt_bind]
  cases x.attempt text <;> rfl

theorem result?_map (x : Reader α) (f : α → β) (text : List UInt8) :
    (do return f (← x) : Reader β).result? text = (x.result? text).map f := by
  rw [result?, attempt_map, result?, Option.map_map, Option.map_map]
  rfl

/-- A reader that looks for a token first does not see blanks in front. -/
theorem attempt_bind_peekToken?_gap {gap : List UInt8} (hgap : Blank gap)
    (f : Option Char → Reader β) (text : List UInt8) :
    (peekToken? >>= f).attempt (gap ++ text) = (peekToken? >>= f).attempt text := by
  rw [attempt, bind_peekToken?_gap hgap]
  rfl

/-- Reading a whole text is an attempt after which only blanks are left. -/
theorem toOption_run {x : Reader α} {o : Option α} {trail : List UInt8}
    (h : x.attempt text = o.map (·, trail)) (htrail : Blank trail) :
    (x.run text).toOption = o := by
  have hend : peekToken?.attempt trail = some (none, []) := by
    have hgap := congrArg Except.toOption (peekToken?_gap htrail [])
    rwa [List.append_nil] at hgap
  unfold Reader.run
  dsimp only
  split
  · next value left hwhole =>
    have hattempt := attempt_of_eq hwhole
    rw [attempt_bind, h] at hattempt
    cases o with
    | none => cases hattempt
    | some a =>
      simp only [Option.map_some, Option.bind_some, attempt_bind, hend, attempt_pure] at hattempt
      cases hattempt
      rfl
  · next stop hwhole =>
    have hattempt : Option.none = _ := (congrArg Except.toOption hwhole).symm
    rw [← attempt, attempt_bind, h] at hattempt
    cases o with
    | none => rfl
    | some a => simp [hend] at hattempt

end Reader

/-! ## Strings -/

section Strings

theorem charOf_injective : Function.Injective charOf := by
  intro b c h
  have hcode (b : UInt8) : (charOf b).toNat = b.toNat := by
    have hb := b.toNat_lt
    rw [charOf, Char.ofNat, dif_pos (Or.inl (by omega))]
    rfl
  rw [← UInt8.toNat_inj, ← hcode, ← hcode, h]

theorem attempt_pairPart {b : UInt8} {c : Char} (hb : charOf b = c) (rest : List UInt8) :
    (pairPart c).attempt (b :: rest) = some ((), rest) := by
  simp [pairPart, hb]

theorem attempt_pairPart_of_ne {b : UInt8} {c : Char} (hb : charOf b ≠ c) (rest : List UInt8) :
    (pairPart c).attempt (b :: rest) = none := by
  simp [pairPart, hb]

theorem attempt_hexEscape {a b c d : UInt8} {m n p q : Nat} (ha : hexDigit? a = some m)
    (hb : hexDigit? b = some n) (hc : hexDigit? c = some p) (hd : hexDigit? d = some q)
    (rest : List UInt8) : hexEscape.attempt (a :: b :: c :: d :: rest) =
      some (((m * 16 + n) * 16 + p) * 16 + q, rest) :=
  attempt_of_eq (hexEscape_cons ha hb hc hd rest)

/-- The second half of a surrogate pair is looked for in what follows the first. -/
def secondUnit : Reader Nat := do
  pairPart '\\'
  pairPart 'u'
  hexEscape

theorem exists_secondUnit {body : List UInt8} (h : StringBody body) :
    ∃ (o : Option Nat) (rest : List UInt8), StringBody rest ∧ rest.length ≤ body.length ∧
      ∀ more, secondUnit.attempt (body ++ 0x22 :: more) = o.map (·, rest ++ 0x22 :: more) := by
  have hslash : charOf 0x5C = '\\' := by decide
  have hu : charOf 0x75 = 'u' := by decide
  cases h with
  | nil => exact ⟨none, [], .nil, by simp, fun more => rfl⟩
  | plain hcontrol hquote hescape h =>
    refine ⟨none, _, h, by simp, fun more => ?_⟩
    rw [secondUnit, attempt_bind, List.cons_append,
      attempt_pairPart_of_ne (fun h => hescape (charOf_injective (h.trans hslash.symm)))]
    rfl
  | @short b c rest hc h =>
    have hb : charOf b ≠ 'u' := by
      intro hb
      rw [hb] at hc
      cases hc
    refine ⟨none, _, h, by simp; omega, fun more => ?_⟩
    simp [secondUnit, attempt_pairPart hslash, attempt_pairPart_of_ne hb]
  | @unit a b c d m n p q rest ha hb hc hd h =>
    refine ⟨some (((m * 16 + n) * 16 + p) * 16 + q), rest, h, by simp; omega, fun more => ?_⟩
    simp only [secondUnit, attempt_bind, List.cons_append, attempt_pairPart hslash,
      attempt_pairPart hu, attempt_hexEscape ha hb hc hd, Option.bind_some]
    rfl

/-- An escape is taken with the next one if the two are a surrogate pair. -/
theorem exists_escapeBody {tail : List UInt8} (h : StringBody (0x5C :: tail)) :
    ∃ (o : Option Char) (rest : List UInt8), StringBody rest ∧ rest.length < tail.length ∧
      ∀ more, escapeBody.attempt (tail ++ 0x22 :: more) = o.map (·, rest ++ 0x22 :: more) := by
  cases h with
  | plain hcontrol hquote hescape h => exact absurd rfl hescape
  | @short b c rest hc h =>
    have hu : charOf b ≠ 'u' := by
      intro hu
      rw [hu] at hc
      cases hc
    refine ⟨some c, rest, h, by simp, fun more => ?_⟩
    exact attempt_of_eq (escapeBody_short hu hc _)
  | @unit a b c d m n p q rest ha hb hc hd h =>
    have hescape (more : List UInt8) :
        escapeBody.attempt (0x75 :: a :: b :: c :: d :: (rest ++ 0x22 :: more)) =
          unicodeEscape.attempt (a :: b :: c :: d :: (rest ++ 0x22 :: more)) := rfl
    simp only [List.cons_append, hescape, unicodeEscape, attempt_bind,
      attempt_hexEscape ha hb hc hd, Option.bind_some]
    generalize ((m * 16 + n) * 16 + p) * 16 + q = unit
    by_cases hlow : 0xDC00 ≤ unit ∧ unit ≤ 0xDFFF
    · refine ⟨none, rest, h, by simp; omega, fun more => ?_⟩
      rw [if_pos hlow]
      rfl
    · by_cases hhigh : 0xD800 ≤ unit ∧ unit ≤ 0xDBFF
      · obtain ⟨o, left, hleft, hle, ho⟩ := exists_secondUnit h
        refine ⟨o.bind fun second => if 0xDC00 ≤ second ∧ second ≤ 0xDFFF then
          some (Char.ofNat ((unit - 0xD800) * 0x400 + (second - 0xDC00) + 0x10000)) else none,
          left, hleft, by simp; omega, fun more => ?_⟩
        have hsecond := ho more
        simp only [secondUnit, attempt_bind, ← Option.bind_assoc] at hsecond
        rw [if_neg hlow, if_pos hhigh]
        simp only [attempt_bind, ← Option.bind_assoc]
        rw [hsecond]
        cases o with
        | none => rfl
        | some second =>
          simp only [Option.map_some, Option.bind_some]
          split_ifs <;> rfl
      · refine ⟨some (Char.ofNat unit), rest, h, by simp; omega, fun more => ?_⟩
        rw [if_neg hlow, if_neg hhigh]
        rfl

theorem attempt_stringBytes_escape (before fuel text : List UInt8) (f : UInt8) :
    (stringBytes before (f :: fuel)).attempt (0x5C :: text) =
      (escapeBody.attempt text).bind fun p =>
        (stringBytes ((String.utf8EncodeChar p.1).reverse ++ before) fuel).attempt p.2 := by
  rw [stringBytes, attempt_bind, attempt_get]
  change (if (0x5C : UInt8) = 0x22 then _ else if (0x5C : UInt8) = 0x5C then _ else _ :
    Reader _).attempt _ = _
  rw [if_neg (by decide), if_pos rfl, attempt_bind, attempt_skip, Option.bind_some, attempt_bind,
    List.tail_cons]

/-- The bytes of a string are the same, or missing, whatever stands behind its closing quote. -/
theorem exists_stringBytes {body : List UInt8} (h : StringBody body) (before : List UInt8) :
    ∃ o : Option (List UInt8), ∀ fuel more, body.length < fuel.length →
      (stringBytes before fuel).attempt (body ++ 0x22 :: more) =
        o.map (·, 0x22 :: more) := by
  induction hlength : body.length using Nat.strongRecOn generalizing body before with
  | ind k ih =>
    subst hlength
    by_cases hescape : ∃ tail, body = 0x5C :: tail
    · obtain ⟨tail, rfl⟩ := hescape
      obtain ⟨o, rest, hrest, hlt, ho⟩ := exists_escapeBody h
      cases o with
      | none =>
        refine ⟨none, fun fuel more hfuel => ?_⟩
        obtain ⟨f, fuel, rfl⟩ := List.exists_cons_of_length_pos (Nat.zero_lt_of_lt hfuel)
        rw [List.cons_append, attempt_stringBytes_escape, ho]
        rfl
      | some c =>
        obtain ⟨o, hmore⟩ := ih rest.length (by simp; omega) hrest
          ((String.utf8EncodeChar c).reverse ++ before) rfl
        refine ⟨o, fun fuel more hfuel => ?_⟩
        obtain ⟨f, fuel, rfl⟩ := List.exists_cons_of_length_pos (Nat.zero_lt_of_lt hfuel)
        rw [List.cons_append, attempt_stringBytes_escape, ho]
        exact hmore fuel more (by simp at hfuel; omega)
    · cases h with
      | nil =>
        refine ⟨some before.reverse, fun fuel more hfuel => ?_⟩
        obtain ⟨f, fuel, rfl⟩ := List.exists_cons_of_length_pos hfuel
        rfl
      | @plain b rest hcontrol hquote hslash h =>
        obtain ⟨o, ho⟩ := ih rest.length (by simp) h (b :: before) rfl
        refine ⟨o, fun fuel more hfuel => ?_⟩
        obtain ⟨f, fuel, rfl⟩ := List.exists_cons_of_length_pos (Nat.zero_lt_of_lt hfuel)
        rw [attempt, List.cons_append, stringBytes_cons ⟨hquote, hslash, hcontrol⟩]
        exact ho fuel more (by simpa using hfuel)
      | short hc h => exact absurd ⟨_, rfl⟩ hescape
      | unit ha hb hc hd h => exact absurd ⟨_, rfl⟩ hescape

/-- A string is the same, or no string, whatever stands behind its closing quote. -/
theorem exists_stringBody {body : List UInt8} (h : StringBody body) :
    ∃ o : Option String, ∀ more, stringBody.attempt (body ++ 0x22 :: more) = o.map (·, more) := by
  obtain ⟨o, ho⟩ := exists_stringBytes h []
  refine ⟨o.bind fun bytes => (Utf8.decode? bytes).map String.ofList, fun more => ?_⟩
  rw [stringBody, attempt_bind, attempt_get, Option.bind_some, attempt_bind, ho _ _ (by simp)]
  cases o with
  | none => rfl
  | some bytes =>
    simp only [Option.map_some, Option.bind_some, attempt_bind, attempt_skip, List.tail_cons]
    cases Utf8.decode? bytes <;> rfl

end Strings

/-! ## Numbers -/

section Numbers

variable {α β : Type}

/-- Whether a reader takes nothing, and does or does not fail whatever the text is. -/
def Steady (reader : Reader α) : Prop :=
  ∃ o : Option α, ∀ text, reader.attempt text = o.map (·, text)

theorem steady_pure (a : α) : Steady (pure a : Reader α) :=
  ⟨some a, fun _ => rfl⟩

theorem steady_failAfter (fault : Fault) : Steady (failAfter fault : Reader α) :=
  ⟨none, fun _ => rfl⟩

theorem steady_scaled (negative : Bool) (significand : Nat) (exponent : Int) :
    Steady (scaled negative significand exponent) := by
  unfold scaled
  split
  · exact steady_pure _
  · exact steady_failAfter _

theorem steady_integerNumber (negative : Bool) (n : Nat) : Steady (integerNumber negative n) := by
  unfold integerNumber
  split_ifs
  · exact steady_pure _
  · exact steady_pure _
  · exact steady_scaled true n 0

theorem attempt_digits {ds rest : List UInt8} (h : Digits ds)
    (hrest : ∀ b ∈ rest.head?, isDigit b = false) : digits.attempt (ds ++ rest) = some (ds, rest) :=
  attempt_of_eq (digits_append h.digits hrest)

theorem Digits.isEmpty {ds : List UInt8} (h : Digits ds) : ds.isEmpty = false := by
  simpa using h.nonempty

theorem head_exponent {exponent rest : List UInt8} (h : Exponent exponent) (hrest : Stops rest) :
    ∀ b ∈ (exponent ++ rest).head?, isDigit b = false := by
  cases h with
  | absent => exact fun b hb => (hrest b hb).1
  | digits hletter hsign h =>
    rintro b ⟨⟩
    rcases hletter with rfl | rfl <;> decide

theorem head_fraction {fraction exponent rest : List UInt8} (h : Fraction fraction)
    (hexponent : Exponent exponent) (hrest : Stops rest) :
    ∀ b ∈ (fraction ++ (exponent ++ rest)).head?, isDigit b = false := by
  cases h with
  | absent => simpa using head_exponent hexponent hrest
  | digits h =>
    rintro b ⟨⟩
    decide

theorem attempt_exponentSign {sign ds : List UInt8} (rest : List UInt8)
    (hsign : sign = [] ∨ sign = [0x2B] ∨ sign = [0x2D]) (h : Digits ds) :
    exponentSign.attempt (sign ++ (ds ++ rest)) = some (sign == [0x2D], ds ++ rest) := by
  rcases hsign with rfl | rfl | rfl
  · obtain ⟨d, ds, rfl⟩ := List.exists_cons_of_ne_nil h.nonempty
    have hd := eq_of_isDigit (h.digits d List.mem_cons_self)
    simp only [List.mem_cons, List.not_mem_nil, or_false] at hd
    rcases hd with rfl | rfl | rfl | rfl | rfl | rfl | rfl | rfl | rfl | rfl <;> rfl
  · rfl
  · rfl

/-- What is done with the digits of an exponent depends on nothing behind them. -/
theorem steady_exponent (negative downwards : Bool) (significand : Nat) (exponent : Int)
    (ds : List UInt8) : Steady (
      let (e, used) := absorb (twoPow 31) 0 ds
      if used = ds.length then
        scaled negative significand (if downwards then exponent - e else exponent + e)
      else if significand ≠ 0 ∧ !downwards then do
        throw ⟨.numberOutOfRange, (← left) + (ds.length - used - 1)⟩
      else return .float negative .zero : Reader Number) := by
  dsimp only
  split_ifs
  · exact steady_scaled _ _ _
  · exact steady_scaled _ _ _
  · exact ⟨none, fun _ => rfl⟩
  · exact steady_pure _

theorem exists_exponentPart {letter : UInt8} {sign ds : List UInt8} (negative : Bool)
    (significand : Nat) (exponent : Int) (hsign : sign = [] ∨ sign = [0x2B] ∨ sign = [0x2D])
    (h : Digits ds) : ∃ o : Option Number, ∀ rest, Stops rest →
      (exponentPart negative significand exponent).attempt (letter :: (sign ++ (ds ++ rest))) =
        o.map (·, rest) := by
  obtain ⟨o, ho⟩ := steady_exponent negative (sign == [0x2D]) significand exponent ds
  refine ⟨o, fun rest hrest => ?_⟩
  rw [exponentPart, attempt_bind, attempt_skip, Option.bind_some, List.tail_cons, attempt_bind,
    attempt_exponentSign rest hsign h, Option.bind_some, attempt_bind,
    attempt_digits h fun b hb => (hrest b hb).1, Option.bind_some]
  simp only [h.isEmpty, Bool.false_eq_true, if_false]
  exact ho rest

/-- What a number does not go on with. -/
theorem Stops.head_ne {rest : List UInt8} (h : Stops rest) :
    rest.head?.map charOf ≠ some '.' ∧ rest.head?.map charOf ≠ some 'e' ∧
      rest.head?.map charOf ≠ some 'E' := by
  cases rest with
  | nil => simp
  | cons b more =>
    obtain ⟨-, hpoint, hsmall, hlarge⟩ := h b rfl
    simp [hpoint, hsmall, hlarge]

theorem exists_exponentOrEnd {text : List UInt8} (negative : Bool) (significand : Nat)
    (exponent : Int) (h : Exponent text) : ∃ o : Option Number, ∀ rest, Stops rest →
      (exponentOrEnd negative significand exponent).attempt (text ++ rest) = o.map (·, rest) := by
  cases h with
  | absent =>
    obtain ⟨o, ho⟩ := steady_scaled negative significand exponent
    refine ⟨o, fun rest hrest => ?_⟩
    rw [exponentOrEnd, attempt_bind, attempt_peek?, Option.bind_some, List.nil_append]
    obtain ⟨-, hsmall, hlarge⟩ := hrest.head_ne
    split
    · next heq => exact absurd heq hsmall
    · next heq => exact absurd heq hlarge
    · exact ho rest
  | digits hletter hsign h =>
    obtain ⟨o, ho⟩ := exists_exponentPart negative significand exponent hsign h
    refine ⟨o, fun rest hrest => ?_⟩
    rw [exponentOrEnd, attempt_bind, attempt_peek?, Option.bind_some, List.cons_append,
      List.append_assoc]
    rcases hletter with rfl | rfl
    · exact ho rest hrest
    · exact ho rest hrest

theorem exists_fractionPart {ds text : List UInt8} (negative : Bool) (significand : Nat)
    (exponent : Int) (h : Digits ds) (htext : Exponent text) :
    ∃ o : Option Number, ∀ rest, Stops rest →
      (fractionPart negative significand exponent).attempt (0x2E :: (ds ++ (text ++ rest))) =
        o.map (·, rest) := by
  obtain ⟨o, ho⟩ := exists_exponentOrEnd negative (absorb (twoPow 64) significand ds).1
    (exponent - (absorb (twoPow 64) significand ds).2) htext
  refine ⟨o, fun rest hrest => ?_⟩
  rw [fractionPart, attempt_bind, attempt_skip, Option.bind_some, List.tail_cons, attempt_bind,
    attempt_digits h (head_exponent htext hrest), Option.bind_some]
  simp only [h.isEmpty, Bool.false_eq_true, if_false]
  exact ho rest hrest

/-- What is read behind the digits in front of the point. -/
def numberTail (negative : Bool) (n : Nat) (exponent : Int) : Reader Number := do
  match ← peek? with
  | some '.' => fractionPart negative n exponent
  | some 'e' | some 'E' => exponentPart negative n exponent
  | _ => if exponent = 0 then integerNumber negative n else scaled negative n exponent

theorem exists_numberTail {fraction text : List UInt8} (negative : Bool) (n : Nat)
    (exponent : Int) (hfraction : Fraction fraction) (htext : Exponent text) :
    ∃ o : Option Number, ∀ rest, Stops rest →
      (numberTail negative n exponent).attempt (fraction ++ (text ++ rest)) =
        o.map (·, rest) := by
  cases hfraction with
  | digits h =>
    obtain ⟨o, ho⟩ := exists_fractionPart negative n exponent h htext
    refine ⟨o, fun rest hrest => ?_⟩
    rw [numberTail, attempt_bind, attempt_peek?, Option.bind_some, List.cons_append]
    exact ho rest hrest
  | absent =>
    cases htext with
    | digits hletter hsign h =>
      obtain ⟨o, ho⟩ := exists_exponentPart negative n exponent hsign h
      refine ⟨o, fun rest hrest => ?_⟩
      rw [numberTail, attempt_bind, attempt_peek?, Option.bind_some, List.nil_append,
        List.cons_append, List.append_assoc]
      rcases hletter with rfl | rfl
      · exact ho rest hrest
      · exact ho rest hrest
    | absent =>
      have hsteady : Steady (if exponent = 0 then integerNumber negative n
          else scaled negative n exponent) := by
        split_ifs
        · exact steady_integerNumber negative n
        · exact steady_scaled negative n exponent
      obtain ⟨o, ho⟩ := hsteady
      refine ⟨o, fun rest hrest => ?_⟩
      rw [numberTail, attempt_bind, attempt_peek?, Option.bind_some, List.nil_append,
        List.nil_append]
      obtain ⟨hpoint, hsmall, hlarge⟩ := hrest.head_ne
      split
      · next heq => exact absurd heq hpoint
      · next heq => exact absurd heq hsmall
      · next heq => exact absurd heq hlarge
      · exact ho rest

theorem attempt_numberBody {ds rest : List UInt8} (negative : Bool) (h : Whole ds)
    (hrest : ∀ b ∈ rest.head?, isDigit b = false) : (numberBody negative).attempt (ds ++ rest) =
      (numberTail negative (absorb (twoPow 64) 0 ds).1
        (ds.length - (absorb (twoPow 64) 0 ds).2)).attempt rest := by
  rw [numberBody, attempt_bind, attempt_digits h.toDigits hrest, Option.bind_some]
  split
  · next heq => exact absurd heq h.nonempty
  · next heq => exact absurd heq (h.unpadded _ _)
  · rfl

/-- A number is the same, or no number, whatever stands behind it. -/
theorem exists_numberBody {w : List UInt8} (negative : Bool) (h : Magnitude w) :
    ∃ o : Option Number, ∀ rest, Stops rest →
      (numberBody negative).attempt (w ++ rest) = o.map (·, rest) := by
  obtain @⟨whole, fraction, exponent, hwhole, hfraction, hexponent⟩ := h
  obtain ⟨o, ho⟩ := exists_numberTail negative (absorb (twoPow 64) 0 whole).1
    (whole.length - (absorb (twoPow 64) 0 whole).2) hfraction hexponent
  refine ⟨o, fun rest hrest => ?_⟩
  rw [List.append_assoc, List.append_assoc,
    attempt_numberBody negative hwhole (head_fraction hfraction hexponent hrest), ho rest hrest]

end Numbers

end InterfaceSchema.Json
