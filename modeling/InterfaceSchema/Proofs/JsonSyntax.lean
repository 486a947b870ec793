import InterfaceSchema.Proofs.JsonReading

/-!
# The syntax of JSON texts

The texts of JSON values, told without a reader: what they are made of, with blanks wherever they
may stand, numbers of any size and strings with escapes. A text of a value begins with a byte that
tells its kind.

## Main definitions

* `IsValue` — texts of values.
* `ObjectOf` — texts of objects with given keys and given texts of values.
-/

namespace InterfaceSchema.Json

open Reader

/-! ## Scalars -/

/-- One or more digits. -/
structure Digits (ds : List UInt8) : Prop where
  nonempty : ds ≠ []
  digits : ∀ d ∈ ds, isDigit d = true

/-- The digits in front of the point, where only zero itself begins with a zero. -/
structure Whole (ds : List UInt8) : Prop extends Digits ds where
  unpadded : ∀ second more, ds ≠ 0x30 :: second :: more

/-- A point with digits, or nothing. -/
inductive Fraction : List UInt8 → Prop where
  | absent : Fraction []
  | digits {ds : List UInt8} (h : Digits ds) : Fraction (0x2E :: ds)

/-- A letter for the exponent with digits and perhaps a sign, or nothing. -/
inductive Exponent : List UInt8 → Prop where
  | absent : Exponent []
  | digits {letter : UInt8} {sign ds : List UInt8} (hletter : letter = 0x65 ∨ letter = 0x45)
    (hsign : sign = [] ∨ sign = [0x2B] ∨ sign = [0x2D]) (h : Digits ds) :
    Exponent (letter :: (sign ++ ds))

/-- Numbers without a minus sign. -/
inductive Magnitude : List UInt8 → Prop where
  | parts {whole fraction exponent : List UInt8} (hwhole : Whole whole)
    (hfraction : Fraction fraction) (hexponent : Exponent exponent) :
    Magnitude (whole ++ (fraction ++ exponent))

/-- Strings between their quotes: bytes that stand for themselves, short escapes, and code units in
four hexadecimal digits. -/
inductive StringBody : List UInt8 → Prop where
  | nil : StringBody []
  | plain {b : UInt8} {rest : List UInt8} (hcontrol : ¬b < 0x20) (hquote : b ≠ 0x22)
    (hescape : b ≠ 0x5C) (h : StringBody rest) : StringBody (b :: rest)
  | short {b : UInt8} {c : Char} {rest : List UInt8} (hc : shortEscape? (charOf b) = some c)
    (h : StringBody rest) : StringBody (0x5C :: b :: rest)
  | unit {a b c d : UInt8} {m n p q : Nat} {rest : List UInt8} (ha : hexDigit? a = some m)
    (hb : hexDigit? b = some n) (hc : hexDigit? c = some p) (hd : hexDigit? d = some q)
    (h : StringBody rest) : StringBody (0x5C :: 0x75 :: a :: b :: c :: d :: rest)

/-! ## Values -/

/-- An item of an array with the blanks around its value. -/
structure Item where
  before : List UInt8
  value : List UInt8
  after : List UInt8

/-- A member of an object with the blanks around its key and its value. -/
structure Member where
  before : List UInt8
  key : List UInt8
  middle : List UInt8
  inner : List UInt8
  value : List UInt8
  after : List UInt8

namespace Item

def text (i : Item) : List UInt8 :=
  i.before ++ (i.value ++ i.after)

/-- Whether there are only blanks around the value. -/
structure Spaced (i : Item) : Prop where
  before : Blank i.before
  after : Blank i.after

end Item

namespace Member

/-- The text of a member from its key on. -/
def body (m : Member) : List UInt8 :=
  0x22 :: (m.key ++ 0x22 :: (m.middle ++ 0x3A :: (m.inner ++ (m.value ++ m.after))))

def text (m : Member) : List UInt8 :=
  m.before ++ m.body

/-- Whether there are only blanks around key and value. -/
structure Spaced (m : Member) : Prop where
  before : Blank m.before
  middle : Blank m.middle
  inner : Blank m.inner
  after : Blank m.after

end Member

/-- Further pieces of a container, each with a comma in front. -/
def further (pieces : List (List UInt8)) : List UInt8 :=
  pieces.flatMap (0x2C :: ·)

/-- What stands between the brackets of a container: its pieces with commas between them, or some
blanks if there are none. -/
def listed (gap : List UInt8) : List (List UInt8) → List UInt8
  | [] => gap
  | first :: more => first ++ further more

/-- Texts of values. -/
inductive IsValue : List UInt8 → Prop where
  | null : IsValue [0x6E, 0x75, 0x6C, 0x6C]
  | true : IsValue [0x74, 0x72, 0x75, 0x65]
  | false : IsValue [0x66, 0x61, 0x6C, 0x73, 0x65]
  | string {body : List UInt8} (h : StringBody body) : IsValue (0x22 :: (body ++ [0x22]))
  | number {w : List UInt8} (h : Magnitude w) : IsValue w
  | negative {w : List UInt8} (h : Magnitude w) : IsValue (0x2D :: w)
  | array {gap : List UInt8} {items : List Item} (hgap : Blank gap)
    (hitems : ∀ i ∈ items, i.Spaced) (h : ∀ i ∈ items, IsValue i.value) :
    IsValue (0x5B :: (listed gap (items.map Item.text) ++ [0x5D]))
  | object {gap : List UInt8} {ms : List Member} (hgap : Blank gap)
    (hms : ∀ m ∈ ms, m.Spaced ∧ StringBody m.key) (h : ∀ m ∈ ms, IsValue m.value) :
    IsValue (0x7B :: (listed gap (ms.map Member.text) ++ [0x7D]))

/-- A member that has a key and the text of a value, however the key is spelled. -/
structure Member.Gives (m : Member) (e : String × List UInt8) : Prop where
  spaced : m.Spaced
  key : ∀ rest, stringBody (m.key ++ 0x22 :: rest) = .ok (e.1, rest)
  value : m.value = e.2

/-- Texts of objects with the given keys and the given texts of values under them, in order. -/
inductive ObjectOf : List (String × List UInt8) → List UInt8 → Prop where
  | members {gap : List UInt8} {ms : List Member} {entries : List (String × List UInt8)}
    (hgap : Blank gap) (h : List.Forall₂ Member.Gives ms entries) :
    ObjectOf entries (0x7B :: (listed gap (ms.map Member.text) ++ [0x7D]))

/-! ## First bytes -/

theorem eq_of_isDigit {b : UInt8} (h : isDigit b = true) :
    b ∈ [0x30, 0x31, 0x32, 0x33, 0x34, 0x35, 0x36, 0x37, 0x38, 0x39] := by
  rw [isDigit, Bool.and_eq_true, decide_eq_true_iff, decide_eq_true_iff, UInt8.le_iff_toNat_le,
    UInt8.le_iff_toNat_le] at h
  simp only [List.mem_cons, ← UInt8.toNat_inj, UInt8.reduceToNat, List.not_mem_nil, or_false] at h ⊢
  omega

/-- A number without a minus sign begins with a digit. -/
theorem Magnitude.exists_cons {w : List UInt8} (h : Magnitude w) :
    ∃ d rest, w = d :: rest ∧ isDigit d = true := by
  obtain ⟨hwhole, -, -⟩ := h
  obtain ⟨d, ds, rfl⟩ := List.exists_cons_of_ne_nil hwhole.nonempty
  exact ⟨d, _, rfl, hwhole.digits d List.mem_cons_self⟩

theorem ObjectOf.exists_cons {entries : List (String × List UInt8)} {w : List UInt8}
    (h : ObjectOf entries w) : ∃ rest, w = 0x7B :: rest := by
  obtain ⟨-, -⟩ := h
  exact ⟨_, rfl⟩

/-- A value begins neither with a blank nor with a closing bracket. -/
theorem IsValue.begins {w : List UInt8} (h : IsValue w) (rest : List UInt8) :
    Begins (w ++ rest) := by
  cases h with
  | null => exact ⟨_, _, rfl, by decide, by decide⟩
  | true => exact ⟨_, _, rfl, by decide, by decide⟩
  | false => exact ⟨_, _, rfl, by decide, by decide⟩
  | string h => exact ⟨_, _, rfl, by decide, by decide⟩
  | number h =>
    obtain ⟨d, more, rfl, hd⟩ := h.exists_cons
    have hall : ∀ d ∈ [0x30, 0x31, 0x32, 0x33, 0x34, 0x35, 0x36, 0x37, 0x38, 0x39],
        isSpace d = Bool.false ∧ charOf d ≠ ']' := by decide +kernel
    exact ⟨d, more ++ rest, rfl, hall d (eq_of_isDigit hd)⟩
  | negative h => exact ⟨_, _, rfl, by decide, by decide⟩
  | array hgap hitems h => exact ⟨_, _, rfl, by decide, by decide⟩
  | object hgap hms h => exact ⟨_, _, rfl, by decide, by decide⟩

end InterfaceSchema.Json
