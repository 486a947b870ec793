import InterfaceSchema.Json.Skip

/-!
# Reading values of a given kind

Strings, truth values, numbers, lists and records with known fields. A value of another kind is
read if it is a scalar, and then named in the fault.

## Main definitions

* `stringValue`, `boolValue`, `unsignedValue`, `listOf` — values of one kind.
* `recordObject`, `recordArray` — a record as an object, or as the array of its fields.
-/

namespace InterfaceSchema.Json

open Reader

variable {α σ : Type}

/-- The name of a number in a fault. -/
def Found.ofNumber : Number → Found
  | .integer n => .integer n
  | .float negative x => .float negative x

/-- Fail because a value of another kind follows. Scalars are taken first. -/
def wrongType (expected : Expected) : Reader α := do
  match ← peek? with
  | some 'n' => skip; word ['u', 'l', 'l']; failAfter (.invalidType .null expected)
  | some 't' => skip; word ['r', 'u', 'e']; failAfter (.invalidType (.boolean true) expected)
  | some 'f' =>
    skip
    word ['a', 'l', 's', 'e']
    failAfter (.invalidType (.boolean false) expected)
  | some '"' =>
    skip
    let s ← stringBody
    failAfter (.invalidType (.string s) expected)
  | some '-' =>
    skip
    let n ← numberBody true
    failAfter (.invalidType (.ofNumber n) expected)
  | some '[' => failAfter (.invalidType .sequence expected)
  | some '{' => failAfter (.invalidType .map expected)
  | some c =>
    if c.isDigit then
      let n ← numberBody false
      failAfter (.invalidType (.ofNumber n) expected)
    else failAt .expectedValue
  | none => failAt .expectedValue

/-! ## Scalars -/

/-- Take a string. -/
def stringValue (expected : Expected) : Reader String := do
  match ← peekToken? with
  | none => failAt .endInValue
  | some '"' => skip; stringBody
  | some _ => wrongType expected

/-- Take a truth value. -/
def boolValue : Reader Bool := do
  match ← peekToken? with
  | none => failAt .endInValue
  | some 't' => skip; word ['r', 'u', 'e']; return true
  | some 'f' => skip; word ['a', 'l', 's', 'e']; return false
  | some _ => wrongType .boolean

/-- Take the null value. -/
def unitValue : Reader Unit := do
  match ← peekToken? with
  | none => failAt .endInValue
  | some 'n' => skip; word ['u', 'l', 'l']
  | some _ => wrongType .unit

/-- A number as an unsigned one of 64 bits. -/
def unsignedOfNumber : Number → Reader UInt64
  | .integer n =>
    if 0 ≤ n then return .ofNat n.toNat else failAfter (.invalidValue (.integer n) .unsigned)
  | .float negative x => failAfter (.invalidType (.float negative x) .unsigned)

/-- Take an unsigned number of 64 bits. -/
def unsignedValue : Reader UInt64 := do
  match ← peekToken? with
  | none => failAt .endInValue
  | some '-' => skip; unsignedOfNumber (← numberBody true)
  | some c =>
    if c.isDigit then unsignedOfNumber (← numberBody false) else wrongType .unsigned

/-! ## Lists -/

/-- Take an array of items. -/
def listOf (item : Reader α) (depth : Nat) : Reader (List α) := do
  match ← peekToken? with
  | none => failAt .endInValue
  | some '[' =>
    let _ ← enter depth
    let vs ← items item (← get) true
    skip
    return vs
  | some _ => wrongType .sequence

/-! ## Records -/

/-- Fail because of what an object says as a whole: the point is behind its closing bracket if
that comes next. -/
def failInObject (fault : Fault) : Reader α := do
  match ← peekToken? with
  | some '}' => skip; failAfter fault
  | _ => failAfter fault

/-- Take the members of an object up to its closing bracket. A known field may come once; what a
member says is added to the record by `field`, which takes the member's value. Every member takes a
byte at least, so the text that they are read from has one for each. -/
def recordMembers (known : List String) (field : σ → String → Reader σ) :
    List UInt8 → List String → Bool → σ → Reader σ
  | [], _, _, _ => failAt .endInObject
  | _ :: text, seen, first, record => do
    if ← hasKey first then
      skip
      let k ← stringBody
      if k ∈ known ∧ k ∈ seen then failInObject (.duplicateField k)
      else
        colon
        let record ← field record k
        recordMembers known field text (k :: seen) false record
    else return record

/-- Take an object as a record, of which the opening bracket comes next. -/
def recordObject (known : List String) (field : Nat → σ → String → Reader σ) (depth : Nat)
    (record : σ) : Reader σ := do
  let inner ← enter depth
  let record ← recordMembers known (field inner) (← get) [] true record
  skip
  return record

/-- Take the items of an array as the given fields of a record, in order. -/
def recordItems (field : σ → String → Reader σ) : List String → Bool → σ → Reader σ
  | [], _, record => return record
  | name :: rest, first, record => do
    if ← hasItem first then
      let record ← field record name
      recordItems field rest false record
    else return record

/-- Take the closing bracket of an array from which nothing more is wanted. -/
def closeArray : Reader Unit := do
  match ← peekToken? with
  | none => failAt .endInList
  | some ']' => skip
  | some ',' =>
    skip
    match ← peekToken? with
    | some ']' => failAt .trailingComma
    | _ => failAt .trailingCharacters
  | some _ => failAt .trailingCharacters

/-- Take an array as a record, of which the opening bracket comes next. Fields that are missing at
its end stay as they are. -/
def recordArray (known : List String) (field : Nat → σ → String → Reader σ) (depth : Nat)
    (record : σ) : Reader σ := do
  let inner ← enter depth
  let record ← recordItems (field inner) known true record
  closeArray
  return record

/-- Take a record, as an object or as the array of its fields. -/
def recordValue (name : String) (known : List String) (field : Nat → σ → String → Reader σ)
    (depth : Nat) (record : σ) : Reader σ := do
  match ← peekToken? with
  | none => failAt .endInValue
  | some '{' => recordObject known field depth record
  | some '[' => recordArray known field depth record
  | some _ => wrongType (.record name)

end InterfaceSchema.Json
