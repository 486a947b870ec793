import InterfaceSchema.Json.Typed
import InterfaceSchema.Proofs.JsonReading

/-!
# Reading back values of a given kind

Readers of one kind of value take what is written of that kind: strings, truth values, unsigned
numbers, lists and records. What a reader takes may have blanks in front, and nothing is asked of
what stands behind but that it does not go on with a number; so readers of items and members are put
together to readers of lists and records.

## Main definitions

* `Takes` — readers that take the text of a value.
* `Fields` — what the members of an object make of a record, one after the other.
-/

namespace InterfaceSchema.Json

open Reader Utf8

/-! ## Taking the text of a value -/

/-- Whether a reader takes the text of a value in a style, from any blanks in front to its last
byte, and gives the result. -/
def Takes {α : Type} (style : Style) (reader : Reader α) (v : Json) (result : α) : Prop :=
  ∀ (gap : List Char) (depth : Nat) (rest : List UInt8), (∀ c ∈ gap, c ∈ [' ', '\n', '\t', '\r']) →
    Stops rest →
      reader (encode gap ++ (encode (v.spread style depth) ++ rest)) = .ok (result, rest)

section Taking

variable {α β : Type} {style : Style} {reader : Reader α} {v : Json} {result : α}

/-- A reader that looks for a token first need not care for blanks. -/
theorem takes_of_token {f : Option Char → Reader α}
    (h : ∀ (depth : Nat) (rest : List UInt8), Stops rest →
      (peekToken? >>= f) (encode (v.spread style depth) ++ rest) = .ok (result, rest)) :
    Takes style (peekToken? >>= f) v result := by
  intro gap depth rest hgap hrest
  rw [bind_peekToken?_gap (blank_encode hgap)]
  exact h depth rest hrest

theorem Takes.map (h : Takes style reader v result) (f : α → β) :
    Takes style (do return f (← reader)) v (f result) := by
  intro gap depth rest hgap hrest
  rw [bind_of_eq (h gap depth rest hgap hrest)]
  rfl

theorem Takes.item (h : Takes style reader v result) (depth : Nat) (rest : List UInt8)
    (hrest : Stops rest) :
    reader (encode (v.spread style depth) ++ rest) = .ok (result, rest) :=
  h [] depth rest (fun _ hc => absurd hc List.not_mem_nil) hrest

/-- Reading a whole text gives what the value in it says. -/
theorem Takes.run (h : Takes style reader v result) :
    reader.run (encode (v.spread style 0)) = .ok result := by
  have hvalue := h.item 0 [] stops_nil
  rw [List.append_nil] at hvalue
  exact run_of_eq hvalue

theorem takes_anyValue (hs : style.Blank) {depth : Nat} (h : v.Fits (depth - 1)) :
    Takes style (anyValue depth) v v := by
  intro gap outer rest hgap _
  rw [anyValue, value_gap (blank_encode hgap)]
  exact value_spread hs h outer rest

end Taking

/-! ## Scalars -/

theorem takes_stringValue (style : Style) (expected : Expected) (s : String) :
    Takes style (stringValue expected) (.string s) s := by
  refine takes_of_token fun depth rest _ => ?_
  have hstring (text : List UInt8) : stringValue expected (0x22 :: text) = stringBody text := rfl
  rw [spread, encode_stringText, List.cons_append]
  exact (hstring _).trans (stringBody_stringText s rest)

theorem takes_boolValue (style : Style) (b : Bool) : Takes style boolValue (.bool b) b := by
  refine takes_of_token fun depth rest _ => ?_
  cases b <;> rfl

/-! ## Unsigned numbers -/

/-- The byte of a character below 0x80. -/
def byteOf (c : Char) : UInt8 :=
  UInt8.ofNat c.toNat

theorem bounds_of_isDigit {c : Char} (h : c.isDigit = true) : 48 ≤ c.toNat ∧ c.toNat ≤ 57 :=
  Char.isDigit_iff_toNat.1 h

theorem toNat_byteOf {c : Char} (h : c.isDigit = true) : (byteOf c).toNat = c.toNat := by
  have hc := bounds_of_isDigit h
  exact toNat_ofNat_of_lt (by omega)

theorem isDigit_byteOf {c : Char} (h : c.isDigit = true) : isDigit (byteOf c) = true := by
  have hc := bounds_of_isDigit h
  simpa [isDigit, UInt8.le_iff_toNat_le, toNat_byteOf h] using hc

theorem encode_digits {cs : List Char} (h : ∀ c ∈ cs, c.isDigit = true) :
    encode cs = cs.map byteOf := by
  induction cs with
  | nil => rfl
  | cons c cs ih =>
    obtain ⟨hc, hcs⟩ := List.forall_mem_cons.1 h
    have hbounds := bounds_of_isDigit hc
    rw [encode_cons, utf8EncodeChar_eq, if_pos (by omega), ih hcs]
    rfl

theorem le_ofDigitChars (cs : List Char) (n : Nat) : n ≤ Nat.ofDigitChars 10 cs n := by
  induction cs generalizing n with
  | nil => exact Nat.le_refl n
  | cons c cs ih =>
    rw [Nat.ofDigitChars_cons]
    have hmore := ih (10 * n + (c.toNat - '0'.toNat))
    omega

/-- Digits are appended as long as the number they make is below the bound. -/
theorem absorb_digits {bound n : Nat} {cs : List Char} (hcs : ∀ c ∈ cs, c.isDigit = true)
    (h : Nat.ofDigitChars 10 cs n < bound) :
    absorb bound n (cs.map byteOf) = (Nat.ofDigitChars 10 cs n, cs.length) := by
  induction cs generalizing n with
  | nil => rfl
  | cons c cs ih =>
    obtain ⟨hc, hcs⟩ := List.forall_mem_cons.1 hcs
    rw [Nat.ofDigitChars_cons] at h ⊢
    have hnext : n * 10 + ((byteOf c).toNat - 0x30) = 10 * n + (c.toNat - '0'.toNat) := by
      rw [toNat_byteOf hc, Nat.mul_comm]
      rfl
    have hbelow := le_ofDigitChars cs (10 * n + (c.toNat - '0'.toNat))
    rw [List.map_cons, absorb, hnext]
    simp only [if_pos (Nat.lt_of_le_of_lt hbelow h), ih hcs h, List.length_cons]

/-- Only zero itself begins with a zero. -/
theorem head?_toDigits_ne {n : Nat} (h : 0 < n) : (Nat.toDigits 10 n).head? ≠ some '0' := by
  induction n using Nat.strongRecOn with
  | ind n ih =>
    by_cases hn : n < 10
    · have hdigit : ∀ m < 10, 0 < m → m.digitChar ≠ '0' := by decide
      rw [Nat.toDigits_of_lt_base hn, List.head?_cons, ne_eq, Option.some.injEq]
      exact hdigit n hn h
    · rw [Nat.toDigits_of_base_le (by omega) (by omega),
        List.head?_append_of_ne_nil _ Nat.toDigits_ne_nil]
      exact ih (n / 10) (by omega) (by omega)

theorem digits_append {ds rest : List UInt8} (hds : ∀ d ∈ ds, isDigit d = true)
    (hrest : ∀ b ∈ rest.head?, isDigit b = false) : digits (ds ++ rest) = .ok (ds, rest) := by
  have hstop : rest.takeWhile isDigit = [] ∧ rest.dropWhile isDigit = rest := by
    cases rest with
    | nil => exact ⟨rfl, rfl⟩
    | cons b more => simp [hrest b rfl]
  have htake : (ds ++ rest).takeWhile isDigit = ds := by
    rw [List.takeWhile_append_of_pos hds, hstop.1, List.append_nil]
  have hdrop : (ds ++ rest).dropWhile isDigit = rest := by
    rw [List.dropWhile_append_of_pos hds, hstop.2]
  change Except.ok ((ds ++ rest).takeWhile isDigit, (ds ++ rest).dropWhile isDigit) = _
  rw [htake, hdrop]

/-- Digits that fit into 64 bits make an integer if nothing of a number stands behind them. -/
theorem numberBody_append {ds rest : List UInt8} {n : Nat} (negative : Bool) (hne : ds ≠ [])
    (hzero : ∀ second more, ds ≠ 0x30 :: second :: more) (hds : ∀ d ∈ ds, isDigit d = true)
    (hvalue : absorb (twoPow 64) 0 ds = (n, ds.length)) (hrest : Stops rest) :
    numberBody negative (ds ++ rest) = integerNumber negative n rest := by
  rw [numberBody, bind_of_eq (digits_append hds fun b hb => (hrest b hb).1)]
  split
  · exact absurd rfl hne
  · exact absurd rfl (hzero _ _)
  · rw [hvalue]
    have hall : (ds.length : Int) - ds.length = 0 := Int.sub_self _
    simp only [hall, if_true]
    cases rest with
    | nil => rfl
    | cons b more =>
      obtain ⟨-, hpoint, hsmall, hlarge⟩ := hrest b rfl
      rw [bind_of_eq (peek?_cons b more)]
      generalize charOf b = c at hpoint hsmall hlarge
      refine congrFun ?_ (b :: more)
      split
      · next heq => exact absurd (Option.some.inj heq) hpoint
      · next heq => exact absurd (Option.some.inj heq) hsmall
      · next heq => exact absurd (Option.some.inj heq) hlarge
      · rfl

theorem isDigit_of_mem_toDigits {n : Nat} : ∀ c ∈ Nat.toDigits 10 n, c.isDigit = true :=
  fun _ => Nat.isDigit_of_mem_toDigits (by omega) (by omega)

/-- No digit stands behind a zero in front. -/
theorem map_byteOf_toDigits_ne (n : Nat) (second : UInt8) (more : List UInt8) :
    (Nat.toDigits 10 n).map byteOf ≠ 0x30 :: second :: more := by
  intro heq
  obtain ⟨c, cs, hcs, hc, hmore⟩ := List.map_eq_cons_iff.1 heq
  have hzero : c = '0' := by
    have hcode := toNat_byteOf (isDigit_of_mem_toDigits c (hcs ▸ List.mem_cons_self))
    rw [hc] at hcode
    exact Char.toNat_inj.1 hcode.symm
  rcases Nat.eq_zero_or_pos n with rfl | hpos
  · rw [Nat.toDigits_zero] at hcs
    cases hcs
    cases hmore
  · refine head?_toDigits_ne hpos ?_
    rw [hcs, List.head?_cons, hzero]

/-- An integer of 64 bits is read from its digits. -/
theorem numberBody_toDigits {n : Nat} (hn : n < twoPow 64) {rest : List UInt8}
    (hrest : Stops rest) :
    numberBody false (encode (Nat.toDigits 10 n) ++ rest) = .ok (.integer n, rest) := by
  have hvalue := @absorb_digits (twoPow 64) 0 _ (@isDigit_of_mem_toDigits n)
  rw [Nat.ofDigitChars_ten_toDigits] at hvalue
  have hbytes : ∀ d ∈ (Nat.toDigits 10 n).map byteOf, isDigit d = true :=
    List.forall_mem_map.2 fun c hc => isDigit_byteOf (isDigit_of_mem_toDigits c hc)
  rw [encode_digits isDigit_of_mem_toDigits, numberBody_append false (by simp [Nat.toDigits_ne_nil])
    (map_byteOf_toDigits_ne n) hbytes (by rw [List.length_map]; exact hvalue hn) hrest]
  rfl

theorem encode_spread_unsigned (style : Style) (depth n : Nat) :
    encode (spread style depth (.number (.integer n))) = encode (Nat.toDigits 10 n) := by
  have hpos : ¬(n : Int) < 0 := by omega
  rw [spread, numberText, integerText, if_neg hpos, List.nil_append, Int.natAbs_natCast]

/-- The digit of a character is no blank and stands for the character. -/
theorem peekToken?_byteOf {c : Char} (h : c.isDigit = true) (rest : List UInt8) :
    peekToken? (byteOf c :: rest) = .ok (some c, byteOf c :: rest) := by
  have hspace : isSpace (byteOf c) = false := by
    have hc := bounds_of_isDigit h
    rw [← toNat_byteOf h] at hc
    simp only [isSpace, Bool.or_eq_false_iff, beq_eq_false_iff_ne, ne_eq, ← UInt8.toNat_inj,
      UInt8.reduceToNat]
    omega
  rw [peekToken?_cons hspace, charOf, toNat_byteOf h, Char.ofNat_toNat]

theorem takes_unsignedValue (style : Style) (n : UInt64) :
    Takes style unsignedValue (.number (.integer n.toNat)) n := by
  refine takes_of_token fun depth rest hrest => ?_
  have hnumber : numberBody false (encode (Nat.toDigits 10 n.toNat) ++ rest) =
      .ok (.integer n.toNat, rest) := numberBody_toDigits n.toNat_lt hrest
  obtain ⟨c, cs, hcs⟩ := List.exists_cons_of_ne_nil (@Nat.toDigits_ne_nil n.toNat 10)
  have hc : c.isDigit = true := isDigit_of_mem_toDigits c (hcs ▸ List.mem_cons_self)
  have hminus : c ≠ '-' := fun h => absurd (h ▸ hc) (by decide)
  rw [encode_spread_unsigned]
  rw [encode_digits isDigit_of_mem_toDigits, hcs, List.map_cons, List.cons_append] at hnumber ⊢
  rw [bind_of_eq (peekToken?_byteOf hc _)]
  simp only [hc, if_true]
  rw [bind_of_eq hnumber, unsignedOfNumber, if_pos (by omega), Int.toNat_natCast,
    UInt64.ofNat_toNat]
  rfl

/-! ## Lists -/

theorem enter_cons {depth : Nat} (h : 1 < depth) (b : UInt8) (rest : List UInt8) :
    enter depth (b :: rest) = .ok (depth - 1, rest) := by
  rw [enter, if_neg (by omega), bind_of_eq (skip_cons b rest)]
  rfl

theorem takes_listOf {α : Type} {style : Style} (hs : style.Blank) {item : Reader α}
    {json : α → Json} {as : List α} {depth : Nat} (hdepth : 1 < depth)
    (hbegins : ∀ a ∈ as, ∀ depth rest, Begins (encode ((json a).spread style depth) ++ rest))
    (hitem : ∀ a ∈ as, Takes style item (json a) a) :
    Takes style (listOf item depth) (.array (as.map json)) as := by
  refine takes_of_token fun outer rest _ => ?_
  have hitems := items_spread hs hbegins (fun a ha => (hitem a ha).item) outer rest
  rw [encode_spread_array, List.cons_append, bind_of_eq (peekToken?_cons (by decide) _)]
  change (enter depth >>= fun _ => _) _ = _
  rw [bind_of_eq (enter_cons hdepth _ _), bind_of_eq (get_eq _), bind_of_eq hitems,
    bind_of_eq (skip_cons _ _)]
  rfl

/-! ## Records -/

/-- What members make of a record, one after the other, if `field` takes each of their values. -/
inductive Fields {σ : Type} (style : Style) (field : σ → String → Reader σ) :
    σ → List (String × Json) → σ → Prop where
  | nil (record : σ) : Fields style field record [] record
  | cons {record next result : σ} {k : String} {v : Json} {more : List (String × Json)}
    (value : Takes style (field record k) v next) (rest : Fields style field next more result) :
    Fields style field record ((k, v) :: more) result

section Records

variable {σ : Type} {known seen : List String} {field : σ → String → Reader σ}
  {record next result : σ} {first : Bool} {text start behind left fuel : List UInt8}

theorem recordMembers_nil (hend : hasKey first text = .ok (false, left))
    (hfuel : 0 < fuel.length) :
    recordMembers known field fuel seen first record text = .ok (record, left) := by
  obtain ⟨b, fuel, rfl⟩ := List.exists_cons_of_length_pos hfuel
  rw [recordMembers, bind_of_eq hend]
  rfl

theorem recordMembers_cons {k : String} {b : UInt8} (hnew : k ∉ seen)
    (hgoes : hasKey first text = .ok (true, encode (stringText k) ++ 0x3A :: start))
    (hfield : field record k start = .ok (next, behind))
    (hmore : recordMembers known field fuel (k :: seen) false next behind = .ok (result, left)) :
    recordMembers known field (b :: fuel) seen first record text = .ok (result, left) := by
  have hcolon : colon (0x3A :: start) = .ok ((), start) := rfl
  rw [recordMembers, bind_of_eq hgoes, if_pos rfl, encode_stringText, List.cons_append,
    bind_of_eq (skip_cons _ _), bind_of_eq (stringBody_stringText k _),
    if_neg (fun h => hnew h.2), bind_of_eq hcolon, bind_of_eq hfield, hmore]

variable {style : Style} (hs : style.Blank) {ms : List (String × Json)} {rest : List UInt8}

include hs

/-- The text of further members, up to the closing bracket, makes of a record what the members
make of it. -/
theorem recordMembers_spreadMembers (h : Fields style field record ms result)
    (hnew : ∀ k ∈ seen, k ∉ ms.map Prod.fst) (hdistinct : (ms.map Prod.fst).Nodup)
    (depth outer : Nat) (hfuel : (encode (spreadMembers style depth ms)).length < fuel.length) :
    recordMembers known field fuel seen false record (encode (spreadMembers style depth ms)
        ++ (encode (style.gap outer) ++ 0x7D :: rest)) = .ok (result, 0x7D :: rest) := by
  induction h generalizing fuel seen with
  | nil record =>
    refine recordMembers_nil ?_ (by omega)
    exact (hasKey_gap (blank_encode (hs.gap outer)) false (0x7D :: rest)).trans (hasKey_close false rest)
  | @cons record next result k v more hvalue _ ih =>
    obtain ⟨f, fuel, rfl⟩ := List.exists_cons_of_length_pos (l := fuel) (by omega)
    rw [List.map_cons, List.nodup_cons] at hdistinct
    rw [encode_spreadMembers_cons] at hfuel ⊢
    simp only [List.length_cons, List.length_append] at hfuel
    simp only [List.cons_append, List.append_assoc]
    refine recordMembers_cons (k := k) (fun hk => hnew k hk List.mem_cons_self) ?_
      (hvalue _ depth _ hs.afterColon (stops_spreadMembers hs _ _ _ _))
      (ih ?_ hdistinct.2 (by omega))
    · rw [encode_stringText, List.cons_append]
      exact hasKey_comma (blank_encode (hs.gap depth)) _
    · refine List.forall_mem_cons.2 ⟨hdistinct.1, fun k' hk' hmem => ?_⟩
      exact hnew k' hk' (List.mem_cons_of_mem _ hmem)

/-- The text of an object behind its opening bracket makes of a record what its members make of
it. -/
theorem recordMembers_spread (h : Fields style field record ms result)
    (hdistinct : (ms.map Prod.fst).Nodup) (outer : Nat) :
    let text := (encode (spread style outer (.object ms))).tail ++ rest
    recordMembers known field text [] true record text = .ok (result, 0x7D :: rest) := by
  intro text
  cases h with
  | nil => rfl
  | @cons _ next _ k v more hvalue hmore =>
    rw [List.map_cons, List.nodup_cons] at hdistinct
    have htext : text = _ := tail_spread_object_cons outer k v more rest
    obtain ⟨f, fuel, hbound, hfuel⟩ := exists_fuel_object style outer k v more rest
    change text = f :: fuel at hbound
    nth_rewrite 1 [hbound]
    rw [htext]
    refine recordMembers_cons (k := k) List.not_mem_nil ?_
      (hvalue _ (outer + 1) _ hs.afterColon (stops_spreadMembers hs _ _ _ _))
      (recordMembers_spreadMembers hs hmore ?_ hdistinct.2 (outer + 1) outer hfuel)
    · rw [hasKey_gap (blank_encode (hs.gap _)), encode_stringText]
      exact hasKey_first _
    · exact List.forall_mem_singleton.2 hdistinct.1

theorem recordObject_spread {field : Nat → σ → String → Reader σ} {inner : Nat}
    (hinner : 0 < inner) (h : Fields style (field inner) record ms result)
    (hdistinct : (ms.map Prod.fst).Nodup) (outer : Nat) (rest : List UInt8) :
    recordObject known field (inner + 1) record (encode (spread style outer (.object ms)) ++ rest) =
      .ok (result, rest) := by
  rw [encode_spread_object, List.cons_append, recordObject,
    bind_of_eq (enter_cons (by omega) _ _), bind_of_eq (get_eq _), Nat.add_sub_cancel,
    bind_of_eq (recordMembers_spread hs h hdistinct outer), bind_of_eq (skip_cons _ _)]
  rfl

theorem takes_recordValue {name : String} {field : Nat → σ → String → Reader σ} {inner : Nat}
    (hinner : 0 < inner) (h : Fields style (field inner) record ms result)
    (hdistinct : (ms.map Prod.fst).Nodup) :
    Takes style (recordValue name known field (inner + 1) record) (.object ms) result := by
  refine takes_of_token fun outer rest _ => ?_
  have hobject : recordObject known field (inner + 1) record
      (encode (spread style outer (.object ms)) ++ rest) = .ok (result, rest) :=
    recordObject_spread hs hinner h hdistinct outer rest
  rw [encode_spread_object, List.cons_append] at hobject ⊢
  rw [bind_of_eq (peekToken?_cons (by decide) _)]
  exact hobject

end Records

end InterfaceSchema.Json
