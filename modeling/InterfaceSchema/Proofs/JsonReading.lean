import InterfaceSchema.Json.Parse
import InterfaceSchema.Proofs.Encoding
import InterfaceSchema.Proofs.JsonText

/-!
# Reading back JSON text

The reader of JSON undoes the writing of values, in every style: it takes exactly the text of the
value and leaves what stands behind. Strings come first, character by character; a value is read by
induction on how deep its containers are nested, which is also how the reader recurs.

Numbers are left out of the values: where a number ends depends on what stands behind it. Items of
an array may be read by any reader, which can rely on what stands behind an item.

## Main definitions

* `Begins` — texts that can be taken for an item of an array.
* `Stops` — texts that a number in front of them does not go on with.
-/

namespace InterfaceSchema.Json

open Reader Utf8

/-! ## Small steps -/

section Steps

variable {α β : Type} {text rest : List UInt8} {b : UInt8}

/-- A reader that has a value goes on behind what it took. -/
theorem bind_of_eq {x : Reader α} {a : α} (h : x text = .ok (a, rest)) (f : α → Reader β) :
    (x >>= f) text = f a rest := by
  change (x text >>= fun p => f p.1 p.2) = f a rest
  rw [h]
  rfl

theorem peek?_cons (b : UInt8) (rest : List UInt8) :
    peek? (b :: rest) = .ok (some (charOf b), b :: rest) := rfl

theorem next?_cons (b : UInt8) (rest : List UInt8) :
    next? (b :: rest) = .ok (some (charOf b), rest) := rfl

theorem skip_cons (b : UInt8) (rest : List UInt8) : skip (b :: rest) = .ok ((), rest) := rfl

theorem get_eq (text : List UInt8) : (get : Reader (List UInt8)) text = .ok (text, text) := rfl

theorem skipSpace_eq (text : List UInt8) :
    skipSpace text = .ok ((), text.dropWhile isSpace) := rfl

/-- Texts of blanks. -/
def Blank (gap : List UInt8) : Prop :=
  ∀ b ∈ gap, isSpace b = true

theorem blank_nil : Blank [] :=
  fun _ h => absurd h List.not_mem_nil

theorem blank_encode {gap : List Char} (hgap : ∀ c ∈ gap, c ∈ [' ', '\n', '\t', '\r']) :
    Blank (encode gap) := by
  intro b hb
  obtain ⟨c, hc, hbc⟩ := List.mem_flatMap.1 hb
  have hall : ∀ c ∈ [' ', '\n', '\t', '\r'], (String.utf8EncodeChar c).all isSpace = true := by
    decide
  exact List.all_eq_true.1 (hall c (hgap c hc)) b hbc

/-- Blanks are passed over. -/
theorem peekToken?_gap {gap : List UInt8} (hgap : Blank gap) (text : List UInt8) :
    peekToken? (gap ++ text) = peekToken? text := by
  have hdrop : (gap ++ text).dropWhile isSpace = text.dropWhile isSpace :=
    List.dropWhile_append_of_pos hgap
  rw [peekToken?, bind_of_eq (skipSpace_eq _), bind_of_eq (skipSpace_eq _), hdrop]

theorem peekToken?_cons (hb : isSpace b = false) (rest : List UInt8) :
    peekToken? (b :: rest) = .ok (some (charOf b), b :: rest) := by
  have hdrop : (b :: rest).dropWhile isSpace = b :: rest := by
    rw [List.dropWhile_cons, hb]
    rfl
  rw [peekToken?, bind_of_eq (skipSpace_eq _), hdrop, peek?_cons]

theorem run_of_eq {x : Reader α} {a : α} (h : x text = .ok (a, [])) : x.run text = .ok a := by
  have hend : peekToken? [] = .ok (none, []) := rfl
  unfold Reader.run
  dsimp only
  rw [bind_of_eq h, bind_of_eq hend]
  rfl

end Steps

/-! ## Strings -/

theorem escapeBody_short {b : UInt8} {c : Char} (hu : charOf b ≠ 'u')
    (h : shortEscape? (charOf b) = some c) (rest : List UInt8) :
    escapeBody (b :: rest) = .ok (c, rest) := by
  rw [escapeBody, bind_of_eq (next?_cons b rest)]
  generalize charOf b = d at hu h
  simp only [h]
  rfl

theorem hexEscape_cons {a b c d : UInt8} {m n p q : Nat} (ha : hexDigit? a = some m)
    (hb : hexDigit? b = some n) (hc : hexDigit? c = some p) (hd : hexDigit? d = some q)
    (rest : List UInt8) :
    hexEscape (a :: b :: c :: d :: rest) = .ok (((m * 16 + n) * 16 + p) * 16 + q, rest) := by
  have hset : (set rest : Reader PUnit) (a :: b :: c :: d :: rest) = .ok (⟨⟩, rest) := rfl
  rw [hexEscape, bind_of_eq (get_eq _)]
  dsimp only
  rw [bind_of_eq hset, ha, hb, hc, hd]
  rfl

/-- A control character is read from the digits of its number. -/
theorem escapeBody_control {n : Nat} (h : n < 32) (rest : List UInt8) :
    escapeBody (encode ['u', '0', '0', Nat.digitChar (n / 16), Nat.digitChar (n % 16)] ++ rest) =
      .ok (Char.ofNat n, rest) := by
  let digit (m : Nat) : UInt8 := UInt8.ofNat (Nat.digitChar m).toNat
  have hdigit : ∀ m < 16, String.utf8EncodeChar (Nat.digitChar m) = [digit m] ∧
      hexDigit? (digit m) = some m := by decide
  obtain ⟨hhigh, hhigh'⟩ := hdigit (n / 16) (by omega)
  obtain ⟨hlow, hlow'⟩ := hdigit (n % 16) (by omega)
  have htext : encode ['u', '0', '0', Nat.digitChar (n / 16), Nat.digitChar (n % 16)] ++ rest =
      0x75 :: 0x30 :: 0x30 :: digit (n / 16) :: digit (n % 16) :: rest := by
    simp only [encode_cons, hhigh, hlow]
    rfl
  have hu : charOf 0x75 = 'u' := by decide
  have hzero : hexDigit? 0x30 = some 0 := by decide
  have hunit : hexEscape (0x30 :: 0x30 :: digit (n / 16) :: digit (n % 16) :: rest) =
      .ok (n, rest) := by
    have hn : ((0 * 16 + 0) * 16 + n / 16) * 16 + n % 16 = n := by omega
    rw [hexEscape_cons hzero hzero hhigh' hlow', hn]
  rw [htext, escapeBody, bind_of_eq (next?_cons _ _), hu]
  change unicodeEscape _ = _
  rw [unicodeEscape, bind_of_eq hunit, if_neg (by omega), if_neg (by omega)]
  rfl

/-- A character stands for itself, unless it is a quote, a backslash or a control, or it is written
as a backslash and what is read as the character behind one. -/
theorem escape_cases (c : Char) :
    (escape c = [c] ∧ c ≠ '"' ∧ c ≠ '\\' ∧ 0x20 ≤ c.toNat) ∨
      ∃ body, escape c = '\\' :: body ∧
        ∀ rest, escapeBody (encode body ++ rest) = .ok (c, rest) := by
  unfold escape
  split_ifs with h₁ h₂ h₃ h₄ h₅ h₆ h₇ h₈
  · exact .inr ⟨['"'], rfl, by subst h₁; exact escapeBody_short (by decide) (by decide)⟩
  · exact .inr ⟨['\\'], rfl, by subst h₂; exact escapeBody_short (by decide) (by decide)⟩
  · exact .inr ⟨['b'], rfl, by subst h₃; exact escapeBody_short (by decide) (by decide)⟩
  · exact .inr ⟨['f'], rfl, by subst h₄; exact escapeBody_short (by decide) (by decide)⟩
  · exact .inr ⟨['n'], rfl, by subst h₅; exact escapeBody_short (by decide) (by decide)⟩
  · exact .inr ⟨['r'], rfl, by subst h₆; exact escapeBody_short (by decide) (by decide)⟩
  · exact .inr ⟨['t'], rfl, by subst h₇; exact escapeBody_short (by decide) (by decide)⟩
  · refine .inr ⟨_, rfl, fun rest => ?_⟩
    rw [escapeBody_control h₈, Char.ofNat_toNat]
  · exact .inl ⟨rfl, h₁, h₂, by omega⟩

/-- The bytes of a character that stands for itself are taken as they are. -/
theorem plain_bytes {c : Char} (hquote : c ≠ '"') (hback : c ≠ '\\') (hcontrol : 0x20 ≤ c.toNat) :
    ∀ b ∈ String.utf8EncodeChar c, b ≠ 0x22 ∧ b ≠ 0x5C ∧ ¬b < 0x20 := by
  intro b hb
  have hne : ∀ d : Char, c ≠ d → c.toNat ≠ d.toNat := fun d hd he => hd (Char.toNat_inj.1 he)
  have hq := hne _ hquote
  have hs := hne _ hback
  rw [ne_eq, ne_eq, ← UInt8.toNat_inj, ← UInt8.toNat_inj, UInt8.lt_iff_toNat_lt]
  simp only [UInt8.reduceToNat, Char.reduceToNat] at hq hs ⊢
  rcases of_mem_utf8EncodeChar hb with h | h
  · rw [h]
    omega
  · omega

section StringBytes

variable {before rest fuel : List UInt8}

theorem stringBytes_cons {b f : UInt8} (h : b ≠ 0x22 ∧ b ≠ 0x5C ∧ ¬b < 0x20) :
    stringBytes before (f :: fuel) (b :: rest) = stringBytes (b :: before) fuel rest := by
  rw [stringBytes, bind_of_eq (get_eq _)]
  change (if b = 0x22 then _ else if b = 0x5C then _ else if b < 0x20 then _ else _ :
    Reader _) _ = _
  rw [if_neg h.1, if_neg h.2.1, if_neg h.2.2, bind_of_eq (skip_cons b rest)]

/-- Bytes that stand for themselves are taken one by one. -/
theorem stringBytes_append {bytes : List UInt8}
    (h : ∀ b ∈ bytes, b ≠ 0x22 ∧ b ≠ 0x5C ∧ ¬b < 0x20) (hfuel : bytes.length ≤ fuel.length) :
    stringBytes before fuel (bytes ++ rest) =
      stringBytes (bytes.reverse ++ before) (fuel.drop bytes.length) rest := by
  induction bytes generalizing before fuel with
  | nil => rfl
  | cons b bytes ih =>
    obtain ⟨hb, hbytes⟩ := List.forall_mem_cons.1 h
    obtain ⟨f, fuel, rfl⟩ := List.exists_cons_of_length_pos (l := fuel) (by simp at hfuel; omega)
    rw [List.cons_append, stringBytes_cons hb, ih hbytes (by simpa using hfuel)]
    simp

/-- A backslash and what is read behind it are taken as the character read. -/
theorem stringBytes_escape {f : UInt8} {c : Char} {body : List UInt8}
    (h : escapeBody (body ++ rest) = .ok (c, rest)) :
    stringBytes before (f :: fuel) (0x5C :: (body ++ rest)) =
      stringBytes ((String.utf8EncodeChar c).reverse ++ before) fuel rest := by
  rw [stringBytes, bind_of_eq (get_eq _)]
  change (if (0x5C : UInt8) = 0x22 then _ else if (0x5C : UInt8) = 0x5C then _ else _ :
    Reader _) _ = _
  rw [if_neg (by decide), if_pos rfl, bind_of_eq (skip_cons _ _), bind_of_eq h]

/-- The bytes between quotes are read as the text that was put there. -/
theorem stringBytes_escaped (cs : List Char)
    (hfuel : (encode (cs.flatMap escape)).length < fuel.length) :
    stringBytes before fuel (encode (cs.flatMap escape) ++ 0x22 :: rest) =
      .ok (before.reverse ++ encode cs, 0x22 :: rest) := by
  induction cs generalizing before fuel with
  | nil =>
    obtain ⟨f, fuel, rfl⟩ := List.exists_cons_of_length_pos (l := fuel) (by omega)
    simp only [List.flatMap_nil, encode_nil, List.nil_append, List.append_nil]
    rfl
  | cons c cs ih =>
    rw [List.flatMap_cons, encode_append] at hfuel ⊢
    rw [List.append_assoc]
    rw [List.length_append] at hfuel
    rcases escape_cases c with ⟨hc, hquote, hback, hcontrol⟩ | ⟨body, hc, hbody⟩
    · have hbytes : encode (escape c) = String.utf8EncodeChar c := by
        rw [hc, encode_cons, encode_nil, List.append_nil]
      rw [hbytes] at hfuel ⊢
      rw [stringBytes_append (plain_bytes hquote hback hcontrol) (by omega),
        ih (by rw [List.length_drop]; omega)]
      simp [encode_cons]
    · have hbytes : encode (escape c) = 0x5C :: encode body := by
        rw [hc]
        rfl
      rw [hbytes] at hfuel ⊢
      obtain ⟨f, fuel, rfl⟩ := List.exists_cons_of_length_pos (l := fuel) (by omega)
      simp only [List.length_cons] at hfuel
      rw [List.cons_append, stringBytes_escape (hbody _), ih (by omega)]
      simp [encode_cons]

end StringBytes

/-- Escaped characters are read as a string, up to the closing quote. -/
theorem stringBody_escaped (s : String) (rest : List UInt8) :
    stringBody (encode (s.toList.flatMap escape) ++ 0x22 :: rest) = .ok (s, rest) := by
  have hbytes : stringBytes [] (encode (s.toList.flatMap escape) ++ 0x22 :: rest)
      (encode (s.toList.flatMap escape) ++ 0x22 :: rest) = .ok (encode s.toList, 0x22 :: rest) :=
    stringBytes_escaped s.toList (by simp)
  rw [stringBody, bind_of_eq (get_eq _), bind_of_eq hbytes, bind_of_eq (skip_cons _ _),
    decode?_encode]
  change Except.ok (String.ofList s.toList, rest) = _
  rw [String.ofList_toList]

/-- The text of a string is read as the string, behind its opening quote. -/
theorem stringBody_stringText (s : String) (rest : List UInt8) :
    stringBody ((encode (stringText s)).tail ++ rest) = .ok (s, rest) := by
  have htail : (encode (stringText s)).tail ++ rest =
      encode (s.toList.flatMap escape) ++ 0x22 :: rest := by
    change (encode (s.toList.flatMap escape ++ ['"'])) ++ rest = _
    rw [encode_append, List.append_assoc]
    rfl
  rw [htail, stringBody_escaped]

/-! ## Containers -/

section Containers

variable {α β : Type} {text rest gap : List UInt8}

/-- A reader that looks for a token first does not see blanks in front. -/
theorem bind_peekToken?_gap (hgap : Blank gap)
    (f : Option Char → Reader β) (text : List UInt8) :
    (peekToken? >>= f) (gap ++ text) = (peekToken? >>= f) text := by
  change (peekToken? (gap ++ text) >>= fun p => f p.1 p.2) = _
  rw [peekToken?_gap hgap]
  rfl

theorem hasItem_gap (hgap : Blank gap) (first : Bool)
    (text : List UInt8) : hasItem first (gap ++ text) = hasItem first text :=
  bind_peekToken?_gap hgap _ text

theorem hasKey_gap (hgap : Blank gap) (first : Bool)
    (text : List UInt8) : hasKey first (gap ++ text) = hasKey first text :=
  bind_peekToken?_gap hgap _ text

theorem value_gap (hgap : Blank gap) (n : Nat)
    (text : List UInt8) : value n (gap ++ text) = value n text := by
  cases n with
  | zero => exact bind_peekToken?_gap hgap _ text
  | succ n => exact bind_peekToken?_gap hgap _ text

theorem hasItem_close (first : Bool) (rest : List UInt8) :
    hasItem first (0x5D :: rest) = .ok (false, 0x5D :: rest) := rfl

theorem hasKey_close (first : Bool) (rest : List UInt8) :
    hasKey first (0x7D :: rest) = .ok (false, 0x7D :: rest) := rfl

/-- A text that can be a value goes on with neither a blank nor a closing bracket. -/
def Begins (text : List UInt8) : Prop :=
  ∃ b rest, text = b :: rest ∧ isSpace b = false ∧ charOf b ≠ ']'

/-- A text that goes on with nothing that could belong to a number. -/
def Stops (text : List UInt8) : Prop :=
  ∀ b ∈ text.head?, isDigit b = false ∧ charOf b ≠ '.' ∧ charOf b ≠ 'e' ∧ charOf b ≠ 'E'

theorem stops_nil : Stops [] :=
  fun _ h => absurd h (Option.not_mem_none _)

theorem stops_cons {b : UInt8}
    (h : isDigit b = false ∧ charOf b ≠ '.' ∧ charOf b ≠ 'e' ∧ charOf b ≠ 'E')
    (rest : List UInt8) : Stops (b :: rest) := by
  rintro _ ⟨⟩
  exact h

theorem stops_gap (hgap : Blank gap) (h : Stops text) : Stops (gap ++ text) := by
  cases gap with
  | nil => exact h
  | cons b more =>
    have hb : b ∈ [0x20, 0x0A, 0x09, 0x0D] := by
      simpa [isSpace, or_assoc] using hgap b List.mem_cons_self
    have hall : ∀ b ∈ [0x20, 0x0A, 0x09, 0x0D], isDigit b = false ∧ charOf b ≠ '.' ∧
        charOf b ≠ 'e' ∧ charOf b ≠ 'E' := by decide +kernel
    exact stops_cons (hall b hb) _

theorem hasItem_first (h : Begins text) : hasItem true text = .ok (true, text) := by
  obtain ⟨b, rest, rfl, hspace, hclose⟩ := h
  rw [hasItem, bind_of_eq (peekToken?_cons hspace rest)]
  generalize charOf b = c at hclose
  simp only [if_true]
  rfl

theorem hasItem_comma (hgap : Blank gap) (h : Begins text) :
    hasItem false (0x2C :: (gap ++ text)) = .ok (true, text) := by
  obtain ⟨b, rest, rfl, hspace, hclose⟩ := h
  have hcomma : charOf 0x2C = ',' := by decide
  have hgoes : charOf 0x2C ≠ ']' := by decide
  rw [hasItem, bind_of_eq (peekToken?_cons (by decide) _)]
  generalize charOf 0x2C = c at hcomma hgoes
  simp only [Bool.false_eq_true, if_false, if_pos hcomma]
  rw [bind_of_eq (skip_cons _ _), bind_peekToken?_gap hgap,
    bind_of_eq (peekToken?_cons hspace rest)]
  generalize charOf b = c at hclose
  simp only
  rfl

theorem hasKey_first (rest : List UInt8) :
    hasKey true (0x22 :: rest) = .ok (true, 0x22 :: rest) := rfl

theorem hasKey_comma (hgap : Blank gap) (rest : List UInt8) :
    hasKey false (0x2C :: (gap ++ 0x22 :: rest)) = .ok (true, 0x22 :: rest) := by
  have hcomma : charOf 0x2C = ',' := by decide
  have hgoes : charOf 0x2C ≠ '\x7d' := by decide
  rw [hasKey, bind_of_eq (peekToken?_cons (by decide) _)]
  generalize charOf 0x2C = c at hcomma hgoes
  simp only [Bool.false_eq_true, if_false, if_pos hcomma]
  rw [bind_of_eq (skip_cons _ _), bind_peekToken?_gap hgap]
  rfl

theorem encode_stringText (s : String) :
    encode (stringText s) = 0x22 :: (encode (stringText s)).tail := rfl

theorem key_stringText (k : String) (rest : List UInt8) :
    key (encode (stringText k) ++ 0x3A :: rest) = .ok (k, rest) := by
  have hcolon : colon (0x3A :: rest) = .ok ((), rest) := rfl
  rw [encode_stringText, List.cons_append, key, bind_of_eq (skip_cons _ _),
    bind_of_eq (stringBody_stringText k _), bind_of_eq hcolon]
  rfl

variable {α : Type} {item : Reader α} {v : α} {start behind left fuel : List UInt8} {first : Bool}

theorem items_nil (hend : hasItem first text = .ok (false, left)) (hfuel : 0 < fuel.length) :
    items item fuel first text = .ok ([], left) := by
  obtain ⟨b, fuel, rfl⟩ := List.exists_cons_of_length_pos hfuel
  rw [items, bind_of_eq hend]
  rfl

theorem items_cons {more : List α} {b : UInt8} (hgoes : hasItem first text = .ok (true, start))
    (hitem : item start = .ok (v, behind))
    (hmore : items item fuel false behind = .ok (more, left)) :
    items item (b :: fuel) first text = .ok (v :: more, left) := by
  rw [items, bind_of_eq hgoes, if_pos rfl, bind_of_eq hitem, bind_of_eq hmore]
  rfl

theorem members_nil (hend : hasKey first text = .ok (false, left)) (hfuel : 0 < fuel.length) :
    members item fuel first text = .ok ([], left) := by
  obtain ⟨b, fuel, rfl⟩ := List.exists_cons_of_length_pos hfuel
  rw [members, bind_of_eq hend]
  rfl

theorem members_cons {more : List (String × α)} {k : String} {b : UInt8}
    (hgoes : hasKey first text = .ok (true, encode (stringText k) ++ 0x3A :: start))
    (hitem : item start = .ok (v, behind))
    (hmore : members item fuel false behind = .ok (more, left)) :
    members item (b :: fuel) first text = .ok ((k, v) :: more, left) := by
  rw [members, bind_of_eq hgoes, if_pos rfl, bind_of_eq (key_stringText k start),
    bind_of_eq hitem, bind_of_eq hmore]
  rfl

/-- An array is the items that are read behind its opening bracket. -/
theorem value_of_items {n : Nat} {vs : List Json}
    (h : items (value n) text true text = .ok (vs, 0x5D :: left)) :
    value (n + 1) (0x5B :: text) = .ok (.array vs, left) := by
  have hvalue : value (n + 1) (0x5B :: text) = (do
      skip
      let vs ← items (value n) (← get) true
      skip
      return .array vs : Reader Json) (0x5B :: text) := rfl
  rw [hvalue, bind_of_eq (skip_cons _ _), bind_of_eq (get_eq _), bind_of_eq h,
    bind_of_eq (skip_cons _ _)]
  rfl

/-- An object is the members that are read behind its opening brace. -/
theorem value_of_members {n : Nat} {ms : List (String × Json)}
    (h : members (value n) text true text = .ok (ms, 0x7D :: left)) :
    value (n + 1) (0x7B :: text) = .ok (.object ms, left) := by
  have hvalue : value (n + 1) (0x7B :: text) = (do
      skip
      let ms ← members (value n) (← get) true
      skip
      return .object ms : Reader Json) (0x7B :: text) := rfl
  rw [hvalue, bind_of_eq (skip_cons _ _), bind_of_eq (get_eq _), bind_of_eq h,
    bind_of_eq (skip_cons _ _)]
  rfl

end Containers

section Spread

variable {style : Style}

theorem encode_spread_array (depth : Nat) (vs : List Json) :
    encode (spread style depth (.array vs)) =
      0x5B :: (encode (spread style depth (.array vs))).tail := by
  cases vs <;> rfl

theorem encode_spread_object (depth : Nat) (ms : List (String × Json)) :
    encode (spread style depth (.object ms)) =
      0x7B :: (encode (spread style depth (.object ms))).tail := by
  cases ms <;> rfl

theorem tail_spread_array_cons (depth : Nat) (v : Json) (more : List Json) (rest : List UInt8) :
    (encode (spread style depth (.array (v :: more)))).tail ++ rest =
      encode (style.gap (depth + 1)) ++ (encode (v.spread style (depth + 1))
        ++ (encode (spreadItems style (depth + 1) more)
          ++ (encode (style.gap depth) ++ 0x5D :: rest))) := by
  have htail : (encode (spread style depth (.array (v :: more)))).tail =
      encode (style.gap (depth + 1) ++ v.spread style (depth + 1)
        ++ spreadItems style (depth + 1) more ++ style.gap depth ++ [']']) := by
    simp only [spread, List.cons_append]
    rfl
  rw [htail]
  simp only [encode_append, List.append_assoc]
  rfl

theorem tail_spread_object_cons (depth : Nat) (k : String) (v : Json)
    (more : List (String × Json)) (rest : List UInt8) :
    (encode (spread style depth (.object ((k, v) :: more)))).tail ++ rest =
      encode (style.gap (depth + 1)) ++ (encode (stringText k) ++ 0x3A :: (encode style.afterColon
        ++ (encode (v.spread style (depth + 1)) ++ (encode (spreadMembers style (depth + 1) more)
          ++ (encode (style.gap depth) ++ 0x7D :: rest))))) := by
  have htail : (encode (spread style depth (.object ((k, v) :: more)))).tail =
      encode (style.gap (depth + 1) ++ stringText k ++ ':' :: style.afterColon
        ++ v.spread style (depth + 1) ++ spreadMembers style (depth + 1) more ++ style.gap depth
          ++ ['\x7d']) := by
    simp only [spread, List.cons_append]
    rfl
  rw [htail]
  simp only [encode_append, encode_cons, List.cons_append, List.append_assoc]
  rfl

/-- The text that bounds the number of members is longer than that of the members behind the
first. -/
theorem exists_fuel_object (style : Style) (depth : Nat) (k : String) (v : Json)
    (more : List (String × Json)) (rest : List UInt8) :
    ∃ f fuel, (encode (spread style depth (.object ((k, v) :: more)))).tail ++ rest = f :: fuel ∧
      (encode (spreadMembers style (depth + 1) more)).length < fuel.length := by
  have hlength := congrArg List.length (@tail_spread_object_cons style depth k v more rest)
  simp only [List.length_append, List.length_cons] at hlength
  obtain ⟨f, fuel, hfuel⟩ := List.exists_cons_of_length_pos
    (l := (encode (spread style depth (.object ((k, v) :: more)))).tail ++ rest)
    (by rw [List.length_append]; omega)
  refine ⟨f, fuel, hfuel, ?_⟩
  have hfuel' := congrArg List.length hfuel
  simp only [List.length_append, List.length_cons] at hfuel'
  omega

theorem encode_spreadItems_cons (depth : Nat) (v : Json) (more : List Json) :
    encode (spreadItems style depth (v :: more)) = 0x2C :: (encode (style.gap depth)
      ++ (encode (v.spread style depth) ++ encode (spreadItems style depth more))) := by
  simp only [spreadItems, encode_append, encode_cons, List.cons_append, List.append_assoc]
  rfl

theorem encode_spreadMembers_cons (depth : Nat) (k : String) (v : Json)
    (more : List (String × Json)) :
    encode (spreadMembers style depth ((k, v) :: more)) = 0x2C :: (encode (style.gap depth)
      ++ (encode (stringText k) ++ 0x3A :: (encode style.afterColon
        ++ (encode (v.spread style depth) ++ encode (spreadMembers style depth more))))) := by
  simp only [spreadMembers, encode_append, encode_cons, List.cons_append, List.append_assoc]
  rfl

end Spread

section Values

variable {style : Style} (hs : style.Blank) {n : Nat} {rest fuel : List UInt8}

theorem begins_spread {v : Json} (h : v.Fits n) (depth : Nat) (rest : List UInt8) :
    Begins (encode (v.spread style depth) ++ rest) := by
  cases h with
  | null => exact ⟨_, _, rfl, by decide, by decide⟩
  | bool n b => cases b <;> exact ⟨_, _, rfl, by decide, by decide⟩
  | string n s => exact ⟨_, _, rfl, by decide, by decide⟩
  | @array n items => cases items <;> exact ⟨_, _, rfl, by decide, by decide⟩
  | @object n members => cases members <;> exact ⟨_, _, rfl, by decide, by decide⟩

include hs

theorem stops_spreadItems (depth outer : Nat) (vs : List Json) (rest : List UInt8) :
    Stops (encode (spreadItems style depth vs) ++ (encode (style.gap outer) ++ 0x5D :: rest)) := by
  cases vs with
  | nil =>
    change Stops (encode (style.gap outer) ++ 0x5D :: rest)
    exact stops_gap (blank_encode (hs.gap outer)) (stops_cons (by decide) rest)
  | cons v more => exact stops_cons (by decide) _

theorem stops_spreadMembers (depth outer : Nat) (ms : List (String × Json)) (rest : List UInt8) :
    Stops (encode (spreadMembers style depth ms)
      ++ (encode (style.gap outer) ++ 0x7D :: rest)) := by
  cases ms with
  | nil =>
    change Stops (encode (style.gap outer) ++ 0x7D :: rest)
    exact stops_gap (blank_encode (hs.gap outer)) (stops_cons (by decide) rest)
  | cons m more => exact stops_cons (by decide) _

section Items

variable {α : Type} {item : Reader α} {json : α → Json} {as : List α} {depth : Nat}
  (hbegins : ∀ a ∈ as, ∀ rest, Begins (encode ((json a).spread style depth) ++ rest))
  (hitem : ∀ a ∈ as, ∀ rest, Stops rest →
    item (encode ((json a).spread style depth) ++ rest) = .ok (a, rest))

include hbegins hitem

/-- The text of further items, up to the closing bracket, is read as the items. -/
theorem items_spreadItems (outer : Nat)
    (hfuel : (encode (spreadItems style depth (as.map json))).length < fuel.length) :
    items item fuel false (encode (spreadItems style depth (as.map json))
        ++ (encode (style.gap outer) ++ 0x5D :: rest)) = .ok (as, 0x5D :: rest) := by
  induction as generalizing fuel with
  | nil =>
    refine items_nil ?_ (by omega)
    exact (hasItem_gap (blank_encode (hs.gap outer)) false (0x5D :: rest)).trans (hasItem_close false rest)
  | cons a more ih =>
    obtain ⟨ha, hmore⟩ := List.forall_mem_cons.1 hitem
    obtain ⟨hba, hbmore⟩ := List.forall_mem_cons.1 hbegins
    obtain ⟨f, fuel, rfl⟩ := List.exists_cons_of_length_pos (l := fuel) (by omega)
    rw [List.map_cons, encode_spreadItems_cons] at hfuel ⊢
    simp only [List.length_cons, List.length_append] at hfuel
    simp only [List.cons_append, List.append_assoc]
    refine items_cons ?_ (ha _ (stops_spreadItems hs _ _ _ _)) (ih hbmore hmore (by omega))
    exact hasItem_comma (blank_encode (hs.gap depth)) (hba _)

end Items

/-- The text of an array behind its opening bracket is read as the items. -/
theorem items_spread {α : Type} {item : Reader α} {json : α → Json} {as : List α}
    (hbegins : ∀ a ∈ as, ∀ depth rest, Begins (encode ((json a).spread style depth) ++ rest))
    (hitem : ∀ a ∈ as, ∀ depth rest, Stops rest →
      item (encode ((json a).spread style depth) ++ rest) = .ok (a, rest))
    (depth : Nat) (rest : List UInt8) :
    let text := (encode (spread style depth (.array (as.map json)))).tail ++ rest
    items item text true text = .ok (as, 0x5D :: rest) := by
  intro text
  cases as with
  | nil => rfl
  | cons a more =>
    obtain ⟨ha, hmore⟩ := List.forall_mem_cons.1 hitem
    obtain ⟨hba, hbmore⟩ := List.forall_mem_cons.1 hbegins
    have htext : text = _ := tail_spread_array_cons depth (json a) (more.map json) rest
    -- the text that bounds the number of items has a byte for the bracket that ends them
    obtain ⟨f, fuel, hfuel⟩ := List.exists_cons_of_length_pos (l := text)
      (by rw [htext]; simp only [List.length_append, List.length_cons]; omega)
    have hlength : text.length = fuel.length + 1 := congrArg List.length hfuel
    have hpos : 0 < (encode ((json a).spread style (depth + 1))).length := by
      obtain ⟨b, bs, hb, -⟩ := hba (depth + 1) []
      rw [← List.append_nil (encode _), hb]
      exact Nat.succ_pos _
    rw [htext] at hlength
    simp only [List.length_append, List.length_cons] at hlength
    nth_rewrite 1 [hfuel]
    rw [htext]
    refine items_cons ?_ (ha (depth + 1) _ (stops_spreadItems hs _ _ _ _))
      (items_spreadItems hs (fun a' h => hbmore a' h (depth + 1))
        (fun a' h => hmore a' h (depth + 1)) depth (by omega))
    exact (hasItem_gap (blank_encode (hs.gap _)) _ _).trans (hasItem_first (hba _ _))

/-- The text of further members, up to the closing bracket, is read as the members. -/
theorem members_spreadMembers {ms : List (String × Json)} {depth : Nat}
    (h : ∀ m ∈ ms, ∀ rest, value n (encode (m.2.spread style depth) ++ rest) = .ok (m.2, rest))
    (outer : Nat) (hfuel : (encode (spreadMembers style depth ms)).length < fuel.length) :
    members (value n) fuel false
        (encode (spreadMembers style depth ms) ++ (encode (style.gap outer) ++ 0x7D :: rest)) =
      .ok (ms, 0x7D :: rest) := by
  induction ms generalizing fuel with
  | nil =>
    refine members_nil ?_ (by omega)
    exact (hasKey_gap (blank_encode (hs.gap outer)) false (0x7D :: rest)).trans (hasKey_close false rest)
  | cons m more ih =>
    obtain ⟨k, v⟩ := m
    obtain ⟨hv, hmore⟩ := List.forall_mem_cons.1 h
    obtain ⟨f, fuel, rfl⟩ := List.exists_cons_of_length_pos (l := fuel) (by omega)
    rw [encode_spreadMembers_cons] at hfuel ⊢
    simp only [List.length_cons, List.length_append] at hfuel
    simp only [List.cons_append, List.append_assoc]
    refine members_cons (k := k) ?_ ((value_gap (blank_encode hs.afterColon) n _).trans (hv _))
      (ih hmore (by omega))
    rw [encode_stringText, List.cons_append]
    exact hasKey_comma (blank_encode (hs.gap depth)) _

theorem value_array {vs : List Json} (hfits : ∀ v ∈ vs, v.Fits n)
    (h : ∀ v ∈ vs, ∀ depth rest, value n (encode (v.spread style depth) ++ rest) = .ok (v, rest))
    (depth : Nat) (rest : List UInt8) :
    value (n + 1) (encode (spread style depth (.array vs)) ++ rest) = .ok (.array vs, rest) := by
  have hitems := @items_spread style hs Json (value n) id vs
    (fun v hv => begins_spread (hfits v hv)) (fun v hv depth rest _ => h v hv depth rest) depth rest
  rw [List.map_id] at hitems
  rw [encode_spread_array, List.cons_append]
  exact value_of_items hitems

theorem value_object {ms : List (String × Json)}
    (h : ∀ m ∈ ms, ∀ depth rest,
      value n (encode (m.2.spread style depth) ++ rest) = .ok (m.2, rest))
    (depth : Nat) (rest : List UInt8) :
    value (n + 1) (encode (spread style depth (.object ms)) ++ rest) = .ok (.object ms, rest) := by
  rw [encode_spread_object, List.cons_append]
  refine value_of_members ?_
  cases ms with
  | nil => rfl
  | cons m more =>
    obtain ⟨k, v⟩ := m
    obtain ⟨hv, hmore⟩ := List.forall_mem_cons.1 h
    obtain ⟨f, fuel, htext, hfuel⟩ := exists_fuel_object style depth k v more rest
    nth_rewrite 1 [htext]
    rw [tail_spread_object_cons]
    refine members_cons (k := k) ?_ ((value_gap (blank_encode hs.afterColon) n _).trans (hv (depth + 1) _))
      (members_spreadMembers hs (fun m hm => hmore m hm (depth + 1)) depth hfuel)
    rw [hasKey_gap (blank_encode (hs.gap _)), encode_stringText]
    exact hasKey_first _

/-- The text of a value is read as the value. The induction is on how deep containers are nested,
so it goes down with the reader. -/
theorem value_spread {v : Json} (h : v.Fits n) (depth : Nat) (rest : List UInt8) :
    value n (encode (v.spread style depth) ++ rest) = .ok (v, rest) := by
  induction h generalizing depth rest with
  | null n => cases n <;> rfl
  | bool n b => cases n <;> cases b <;> rfl
  | string n s =>
    have hstring (text : List UInt8) : value n (0x22 :: text) =
        (do return .string (← stringBody) : Reader Json) text := by
      cases n <;> rfl
    rw [spread, encode_stringText, List.cons_append, hstring,
      bind_of_eq (stringBody_stringText s _)]
    rfl
  | array hfits ih => exact value_array hs hfits ih depth rest
  | object hfits ih => exact value_object hs ih depth rest

/-- Reading a whole text gives the value that was written, if so deep nesting is allowed. -/
theorem parse_spread {v : Json} (h : v.Fits n) :
    parse (n + 1) (encode (v.spread style 0)) = .ok v := by
  have hvalue := value_spread hs h 0 []
  rw [List.append_nil] at hvalue
  exact run_of_eq hvalue

end Values

/-! ## Whole texts -/

theorem parse_indented {v : Json} {n : Nat} (h : v.Fits n) :
    parse (n + 1) (utf8 v.indented) = .ok v := by
  rw [utf8, toList_indented]
  exact parse_spread Style.blank_indented h

theorem parse_compact {v : Json} {n : Nat} (h : v.Fits n) :
    parse (n + 1) (utf8 v.compact) = .ok v := by
  rw [utf8, toList_compact]
  exact parse_spread Style.blank_compact h

/-- Indented texts with the same bytes are texts of the same value. -/
theorem indented_injective {v w : Json} (hv : v.NumberFree) (hw : w.NumberFree)
    (h : utf8 v.indented = utf8 w.indented) : v = w := by
  obtain ⟨m, hm⟩ := hv
  obtain ⟨n, hn⟩ := hw
  have hleft := parse_indented (hm.mono (Nat.le_max_left m n))
  have hright := parse_indented (hn.mono (Nat.le_max_right m n))
  rw [h, hright] at hleft
  exact (Except.ok.inj hleft).symm

theorem compact_injective {v w : Json} (hv : v.NumberFree) (hw : w.NumberFree)
    (h : v.compact = w.compact) : v = w := by
  obtain ⟨m, hm⟩ := hv
  obtain ⟨n, hn⟩ := hw
  have hleft := parse_compact (hm.mono (Nat.le_max_left m n))
  have hright := parse_compact (hn.mono (Nat.le_max_right m n))
  rw [h, hright] at hleft
  exact (Except.ok.inj hleft).symm

end InterfaceSchema.Json
