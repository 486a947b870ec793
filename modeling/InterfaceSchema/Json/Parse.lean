import InterfaceSchema.Json.Number

/-!
# Reading JSON values

Any value, with containers nested up to a given depth.

## Main definitions

* `enter` — the opening bracket of a container, within the allowed depth.
* `hasItem`, `hasKey` — whether a container goes on, commas included.
* `items`, `members` — what a container holds, given how to read one value in it.
* `value` — a value, by recursion on how deep containers may be nested.
* `Json.parse` — a whole text as a value.
-/

namespace InterfaceSchema.Json

open Reader

variable {α : Type}

/-! ## Containers -/

/-- Take the opening bracket of a container where so many more may be opened inside one another:
how many may then still be. The last one counted is refused already. -/
def enter (depth : Nat) : Reader Nat := do
  if depth ≤ 1 then failAt .recursionLimit
  else
    skip
    return depth - 1

/-- Whether an array has another item. A comma before it is taken, the closing bracket is not. -/
def hasItem (first : Bool) : Reader Bool := do
  match ← peekToken? with
  | none => failAt .endInList
  | some ']' => return false
  | some c =>
    if first then return true
    else if c = ',' then
      skip
      match ← peekToken? with
      | none => failAt .endInValue
      | some ']' => failAt .trailingComma
      | some _ => return true
    else failAt .expectedListComma

/-- Whether an object has another member. A comma before it is taken, the closing bracket is
not. -/
def hasKey (first : Bool) : Reader Bool := do
  match ← peekToken? with
  | none => failAt .endInObject
  | some '}' => return false
  | some c =>
    if first then
      if c = '"' then return true else failAt .keyNotString
    else if c = ',' then
      skip
      match ← peekToken? with
      | none => failAt .endInValue
      | some '"' => return true
      | some '}' => failAt .trailingComma
      | some _ => failAt .keyNotString
    else failAt .expectedObjectComma

/-- Take the colon between a key and its value. -/
def colon : Reader Unit := do
  match ← peekToken? with
  | none => failAt .endInObject
  | some ':' => skip
  | some _ => failAt .expectedColon

/-- Take a key, of which the opening quote comes next, and the colon behind it. -/
def key : Reader String := do
  skip
  let k ← stringBody
  colon
  return k

/-- Take the items of an array up to its closing bracket. Every item takes a byte at least, so the
text that they are read from has one for each. -/
def items (item : Reader α) : List UInt8 → Bool → Reader (List α)
  | [], _ => failAt .endInList
  | _ :: text, first => do
    if ← hasItem first then
      let v ← item
      return v :: (← items item text false)
    else return []

/-- Take the members of an object up to its closing bracket. Every member takes a byte at least, so
the text that they are read from has one for each. -/
def members (item : Reader α) : List UInt8 → Bool → Reader (List (String × α))
  | [], _ => failAt .endInObject
  | _ :: text, first => do
    if ← hasKey first then
      let k ← key
      let v ← item
      return (k, v) :: (← members item text false)
    else return []

/-! ## Values -/

/-- Take a value, where arrays and objects are taken from their opening bracket on. -/
def valueWith (array object : Reader Json) : Reader Json := do
  match ← peekToken? with
  | none => failAt .endInValue
  | some 'n' => skip; word ['u', 'l', 'l']; return .null
  | some 't' => skip; word ['r', 'u', 'e']; return .bool true
  | some 'f' => skip; word ['a', 'l', 's', 'e']; return .bool false
  | some '"' => skip; return .string (← stringBody)
  | some '-' => skip; return .number (← numberBody true)
  | some '[' => array
  | some '{' => object
  | some c => if c.isDigit then return .number (← numberBody false) else failAt .expectedValue

/-- Take a value in which at most so many containers are opened inside one another. -/
def value : Nat → Reader Json
  | 0 => valueWith (failAt .recursionLimit) (failAt .recursionLimit)
  | depth + 1 =>
    let array : Reader Json := do
      skip
      let vs ← items (value depth) (← get) true
      skip
      return .array vs
    let object : Reader Json := do
      skip
      let ms ← members (value depth) (← get) true
      skip
      return .object ms
    valueWith array object

/-- Take a value in which less than `depth` containers are opened inside one another. -/
def anyValue (depth : Nat) : Reader Json :=
  value (depth - 1)

/-- Read a whole text as a value with containers nested less than `depth` deep. -/
def parse (depth : Nat) (text : List UInt8) : Except ReadError Json :=
  (anyValue depth).run text

end InterfaceSchema.Json
