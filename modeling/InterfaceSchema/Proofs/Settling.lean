import InterfaceSchema.Proofs.Locality
import Mathlib.Tactic.FinCases

/-!
# What stands around a value

A reader that is given the text of a value takes exactly this text or fails, and which of the two it
does, and with which result, depends neither on the blanks in front nor on what stands behind. So
what a reader makes of the members of an object is made of them one after the other.

## Main definitions

* `Settles` — readers for which only the text of a value counts.
-/

namespace InterfaceSchema.Json

open Reader

/-! ## Readers that settle -/

section Settling

variable {α β : Type} {w : List UInt8}

/-- Whether a reader takes a text, or fails, whatever blanks stand in front of it and whatever
stands behind it. What it makes of the text is always the same. -/
def Settles (reader : Reader α) (w : List UInt8) : Prop :=
  ∀ gap rest, Blank gap → Stops rest →
    reader.attempt (gap ++ (w ++ rest)) = (reader.result? w).map (·, rest)

theorem settles_of_exists {reader : Reader α} (h : ∃ o : Option α, ∀ gap rest, Blank gap →
    Stops rest → reader.attempt (gap ++ (w ++ rest)) = o.map (·, rest)) : Settles reader w := by
  obtain ⟨o, ho⟩ := h
  have halone := ho [] [] blank_nil stops_nil
  rw [List.nil_append, List.append_nil] at halone
  have hresult : reader.result? w = o := by
    rw [result?, halone]
    cases o <;> rfl
  intro gap rest hgap hrest
  rw [hresult, ho gap rest hgap hrest]

/-- Blanks in front do not matter for a reader that passes over them. -/
theorem settles_of_gap {reader : Reader α} (hgap : ∀ gap text, Blank gap →
    reader.attempt (gap ++ text) = reader.attempt text)
    (h : ∃ o : Option α, ∀ rest, Stops rest → reader.attempt (w ++ rest) = o.map (·, rest)) :
    Settles reader w := by
  obtain ⟨o, ho⟩ := h
  refine settles_of_exists ⟨o, fun gap rest hblank hrest => ?_⟩
  rw [hgap gap _ hblank, ho rest hrest]

theorem settles_of_token {f : Option Char → Reader α} (h : ∃ o : Option α, ∀ rest, Stops rest →
    (peekToken? >>= f).attempt (w ++ rest) = o.map (·, rest)) : Settles (peekToken? >>= f) w :=
  settles_of_gap (fun _ text hgap => attempt_bind_peekToken?_gap hgap f text) h

theorem Settles.map {reader : Reader α} (h : Settles reader w) (f : α → β) :
    Settles (do return f (← reader)) w := by
  refine settles_of_exists ⟨(reader.result? w).map f, fun gap rest hgap hrest => ?_⟩
  rw [attempt_map, h gap rest hgap hrest]
  cases reader.result? w <;> rfl

end Settling

/-! ## Items and members -/

theorem further_cons (piece : List UInt8) (more : List (List UInt8)) :
    further (piece :: more) = 0x2C :: (piece ++ further more) := by
  rw [further, List.flatMap_cons, List.cons_append]
  rfl

/-- No number goes on behind a piece of a container. -/
theorem stops_further (pieces : List (List UInt8)) {b : UInt8}
    (hb : isDigit b = false ∧ charOf b ≠ '.' ∧ charOf b ≠ 'e' ∧ charOf b ≠ 'E')
    (rest : List UInt8) : Stops (further pieces ++ b :: rest) := by
  cases pieces with
  | nil => exact stops_cons hb rest
  | cons piece more =>
    rw [further_cons]
    exact stops_cons (by decide) _

section Items

variable {α : Type} {item : Reader α} {fuel text rest : List UInt8} {first : Bool}

theorem attempt_items_nil {left : List UInt8} (hend : hasItem first text = .ok (false, left))
    (hfuel : 0 < fuel.length) : (items item fuel first).attempt text = some ([], left) :=
  attempt_of_eq (items_nil hend hfuel)

/-- An item is taken in front of the others. -/
theorem attempt_items_cons {f : UInt8} {i : Item} {more : List Item} (hi : i.Spaced)
    (hitem : Settles item i.value)
    (hgoes : hasItem first text = .ok (true, i.value ++ (i.after ++
      (further (more.map Item.text) ++ 0x5D :: rest))))
    (hmore : (items item fuel false).attempt (i.after ++
      (further (more.map Item.text) ++ 0x5D :: rest)) =
        (more.mapM fun i => item.result? i.value).map (·, 0x5D :: rest)) :
    (items item (f :: fuel) first).attempt text =
      ((i :: more).mapM fun i => item.result? i.value).map (·, 0x5D :: rest) := by
  have hone := hitem [] _ blank_nil (stops_gap hi.after (stops_further (more.map Item.text)
    (by decide : isDigit 0x5D = false ∧ _) rest))
  rw [List.nil_append] at hone
  rw [items, attempt_bind, attempt_of_eq hgoes, Option.bind_some, if_pos rfl, attempt_bind, hone,
    List.mapM_cons]
  cases item.result? i.value with
  | none => rfl
  | some v =>
    simp only [Option.map_some, Option.bind_some, attempt_bind, hmore]
    cases more.mapM fun i => item.result? i.value <;> rfl

variable {is : List Item} (hspaced : ∀ i ∈ is, i.Spaced) (hvalue : ∀ i ∈ is, IsValue i.value)
  (hitem : ∀ i ∈ is, Settles item i.value)
include hspaced hvalue hitem

/-- Behind an item of an array, the others are taken one after the other. -/
theorem attempt_items_further {gap : List UInt8} (hgap : Blank gap)
    (hfuel : (further (is.map Item.text)).length < fuel.length) :
    (items item fuel false).attempt (gap ++ (further (is.map Item.text) ++ 0x5D :: rest)) =
      (is.mapM fun i => item.result? i.value).map (·, 0x5D :: rest) := by
  induction is generalizing gap fuel with
  | nil =>
    refine attempt_items_nil ?_ (Nat.zero_lt_of_lt hfuel)
    exact (hasItem_gap hgap false _).trans (hasItem_close false rest)
  | cons i more ih =>
    obtain ⟨f, fuel, rfl⟩ := List.exists_cons_of_length_pos (Nat.zero_lt_of_lt hfuel)
    obtain ⟨hi, hspaced⟩ := List.forall_mem_cons.1 hspaced
    obtain ⟨hv, hvalue⟩ := List.forall_mem_cons.1 hvalue
    obtain ⟨hsettles, hitem⟩ := List.forall_mem_cons.1 hitem
    rw [List.map_cons, further_cons] at hfuel ⊢
    refine attempt_items_cons hi hsettles ?_ (ih hspaced hvalue hitem hi.after ?_)
    · rw [hasItem_gap hgap, Item.text]
      simp only [List.cons_append, List.append_assoc]
      exact hasItem_comma hi.before (hv.begins _)
    · simp at hfuel
      omega

/-- The items of an array are taken one after the other. -/
theorem attempt_items_listed {gap : List UInt8} (hgap : Blank gap)
    (hfuel : (listed gap (is.map Item.text)).length < fuel.length) :
    (items item fuel true).attempt (listed gap (is.map Item.text) ++ 0x5D :: rest) =
      (is.mapM fun i => item.result? i.value).map (·, 0x5D :: rest) := by
  cases is with
  | nil =>
    refine attempt_items_nil ?_ (Nat.zero_lt_of_lt hfuel)
    exact (hasItem_gap hgap true _).trans (hasItem_close true rest)
  | cons i more =>
    obtain ⟨f, fuel, rfl⟩ := List.exists_cons_of_length_pos (Nat.zero_lt_of_lt hfuel)
    obtain ⟨hi, hspaced⟩ := List.forall_mem_cons.1 hspaced
    obtain ⟨hv, hvalue⟩ := List.forall_mem_cons.1 hvalue
    obtain ⟨hsettles, hitem⟩ := List.forall_mem_cons.1 hitem
    rw [List.map_cons, listed] at hfuel ⊢
    refine attempt_items_cons hi hsettles ?_
      (attempt_items_further hspaced hvalue hitem hi.after ?_)
    · rw [Item.text]
      simp only [List.append_assoc]
      exact (hasItem_gap hi.before true _).trans (hasItem_first (hv.begins _))
    · have hpos : 0 < i.value.length := by
        obtain ⟨b, rest, hb, -⟩ := hv.begins []
        rw [List.append_nil] at hb
        simp [hb]
      simp [Item.text] at hfuel
      omega

end Items

section Keys

theorem attempt_stringBody {body : List UInt8} (h : StringBody body) (more : List UInt8) :
    stringBody.attempt (body ++ 0x22 :: more) =
      (stringBody.result? (body ++ [0x22])).map (·, more) := by
  obtain ⟨o, ho⟩ := exists_stringBody h
  rw [result?, ho, ho]
  cases o <;> rfl

theorem attempt_colon {gap : List UInt8} (hgap : Blank gap) (start : List UInt8) :
    colon.attempt (gap ++ 0x3A :: start) = some ((), start) :=
  attempt_bind_peekToken?_gap hgap _ _

theorem attempt_key {m : Member} (hm : m.Spaced) (hkey : StringBody m.key)
    (start : List UInt8) : key.attempt (0x22 :: (m.key ++ 0x22 :: (m.middle ++ 0x3A :: start))) =
      (stringBody.result? (m.key ++ [0x22])).map (·, start) := by
  rw [key, attempt_bind, attempt_skip, Option.bind_some, List.tail_cons, attempt_bind,
    attempt_stringBody hkey]
  cases stringBody.result? (m.key ++ [0x22]) with
  | none => rfl
  | some k =>
    simp only [Option.map_some, Option.bind_some, attempt_bind, attempt_colon hm.middle]
    rfl

theorem hasKey_body (m : Member) (rest : List UInt8) :
    hasKey true (m.body ++ rest) = .ok (true, m.body ++ rest) :=
  hasKey_first _

theorem hasKey_comma_body {gap : List UInt8} (hgap : Blank gap) (m : Member)
    (rest : List UInt8) :
    hasKey false (0x2C :: (gap ++ (m.body ++ rest))) = .ok (true, m.body ++ rest) :=
  hasKey_comma hgap _

/-- A key and a value, as a member is read. -/
def Member.entry? {α : Type} (item : Reader α) (m : Member) : Option (String × α) :=
  (stringBody.result? (m.key ++ [0x22])).bind fun k => (item.result? m.value).map (k, ·)

end Keys

section Members

variable {α : Type} {item : Reader α} {fuel text rest : List UInt8} {first : Bool}

theorem attempt_members_nil {left : List UInt8} (hend : hasKey first text = .ok (false, left))
    (hfuel : 0 < fuel.length) : (members item fuel first).attempt text = some ([], left) :=
  attempt_of_eq (members_nil hend hfuel)

/-- A member is taken in front of the others. -/
theorem attempt_members_cons {f : UInt8} {m : Member} {more : List Member}
    (hm : m.Spaced ∧ StringBody m.key) (hitem : Settles item m.value)
    (hgoes : hasKey first text = .ok (true, m.body ++
      (further (more.map Member.text) ++ 0x7D :: rest)))
    (hmore : (members item fuel false).attempt (m.after ++
      (further (more.map Member.text) ++ 0x7D :: rest)) =
        (more.mapM (Member.entry? item)).map (·, 0x7D :: rest)) :
    (members item (f :: fuel) first).attempt text =
      ((m :: more).mapM (Member.entry? item)).map (·, 0x7D :: rest) := by
  obtain ⟨hm, hkey⟩ := hm
  have hone := hitem m.inner _ hm.inner (stops_gap hm.after (stops_further (more.map Member.text)
    (by decide : isDigit 0x7D = false ∧ _) rest))
  have hbody : m.body ++ (further (more.map Member.text) ++ 0x7D :: rest) =
      0x22 :: (m.key ++ 0x22 :: (m.middle ++ 0x3A :: (m.inner ++ (m.value ++ (m.after ++
        (further (more.map Member.text) ++ 0x7D :: rest)))))) := by
    simp [Member.body]
  rw [members, attempt_bind, attempt_of_eq hgoes, Option.bind_some, if_pos rfl, attempt_bind,
    hbody, attempt_key hm hkey, List.mapM_cons, Member.entry?]
  cases stringBody.result? (m.key ++ [0x22]) with
  | none => rfl
  | some k =>
    simp only [Option.map_some, Option.bind_some, attempt_bind, hone]
    cases item.result? m.value with
    | none => rfl
    | some v =>
      simp only [Option.map_some, Option.bind_some, hmore]
      cases more.mapM (Member.entry? item) <;> rfl

variable {ms : List Member} (hms : ∀ m ∈ ms, m.Spaced ∧ StringBody m.key)
  (hitem : ∀ m ∈ ms, Settles item m.value)
include hms hitem

/-- Behind a member of an object, the others are taken one after the other. -/
theorem attempt_members_further {gap : List UInt8} (hgap : Blank gap)
    (hfuel : (further (ms.map Member.text)).length < fuel.length) :
    (members item fuel false).attempt (gap ++ (further (ms.map Member.text) ++ 0x7D :: rest)) =
      (ms.mapM (Member.entry? item)).map (·, 0x7D :: rest) := by
  induction ms generalizing gap fuel with
  | nil =>
    refine attempt_members_nil ?_ (Nat.zero_lt_of_lt hfuel)
    exact (hasKey_gap hgap false _).trans (hasKey_close false rest)
  | cons m more ih =>
    obtain ⟨f, fuel, rfl⟩ := List.exists_cons_of_length_pos (Nat.zero_lt_of_lt hfuel)
    obtain ⟨hm, hms⟩ := List.forall_mem_cons.1 hms
    obtain ⟨hsettles, hitem⟩ := List.forall_mem_cons.1 hitem
    rw [List.map_cons, further_cons] at hfuel ⊢
    refine attempt_members_cons hm hsettles ?_ (ih hms hitem hm.1.after ?_)
    · rw [hasKey_gap hgap, Member.text]
      simp only [List.cons_append, List.append_assoc]
      exact hasKey_comma_body hm.1.before m _
    · simp at hfuel
      omega

/-- The members of an object are taken one after the other. -/
theorem attempt_members_listed {gap : List UInt8} (hgap : Blank gap)
    (hfuel : (listed gap (ms.map Member.text)).length < fuel.length) :
    (members item fuel true).attempt (listed gap (ms.map Member.text) ++ 0x7D :: rest) =
      (ms.mapM (Member.entry? item)).map (·, 0x7D :: rest) := by
  cases ms with
  | nil =>
    refine attempt_members_nil ?_ (Nat.zero_lt_of_lt hfuel)
    exact (hasKey_gap hgap true _).trans (hasKey_close true rest)
  | cons m more =>
    obtain ⟨f, fuel, rfl⟩ := List.exists_cons_of_length_pos (Nat.zero_lt_of_lt hfuel)
    obtain ⟨hm, hms⟩ := List.forall_mem_cons.1 hms
    obtain ⟨hsettles, hitem⟩ := List.forall_mem_cons.1 hitem
    rw [List.map_cons, listed] at hfuel ⊢
    refine attempt_members_cons hm hsettles ?_
      (attempt_members_further hms hitem hm.1.after ?_)
    · rw [Member.text]
      simp only [List.append_assoc]
      exact (hasKey_gap hm.1.before true _).trans (hasKey_body m _)
    · simp [Member.text, Member.body] at hfuel
      omega

end Members

/-! ## Records -/

section Records

variable {σ : Type} {known seen : List String} {field : σ → String → Reader σ} {record : σ}
  {fuel text rest : List UInt8} {first : Bool}

theorem attempt_recordMembers_nil {left : List UInt8}
    (hend : hasKey first text = .ok (false, left)) (hfuel : 0 < fuel.length) :
    (recordMembers known field fuel seen first record).attempt text = some (record, left) :=
  attempt_of_eq (recordMembers_nil hend hfuel)

/-- What entries make of a record, one after the other, each taken by a reader of its own. -/
def recorded? (field : σ → String → Reader σ) (record : σ) (entries : List (String × List UInt8)) :
    Option σ :=
  entries.foldlM (fun record e => (field record e.1).result? e.2) record

/-- A member is taken in front of the others. -/
theorem attempt_recordMembers_cons {f : UInt8} {m : Member} {more : List Member}
    {e : String × List UInt8} {entries : List (String × List UInt8)} (hm : m.Gives e)
    (hnew : e.1 ∉ seen) (hfield : Settles (field record e.1) e.2)
    (hgoes : hasKey first text = .ok (true, m.body ++
      (further (more.map Member.text) ++ 0x7D :: rest)))
    (hmore : ∀ record, (recordMembers known field fuel (e.1 :: seen) false record).attempt
      (m.after ++ (further (more.map Member.text) ++ 0x7D :: rest)) =
        (recorded? field record entries).map (·, 0x7D :: rest)) :
    (recordMembers known field (f :: fuel) seen first record).attempt text =
      (recorded? field record (e :: entries)).map (·, 0x7D :: rest) := by
  have hone := hfield m.inner _ hm.spaced.inner (stops_gap hm.spaced.after
    (stops_further (more.map Member.text) (by decide : isDigit 0x7D = false ∧ _) rest))
  have hbody : m.body ++ (further (more.map Member.text) ++ 0x7D :: rest) =
      0x22 :: (m.key ++ 0x22 :: (m.middle ++ 0x3A :: (m.inner ++ (e.2 ++ (m.after ++
        (further (more.map Member.text) ++ 0x7D :: rest)))))) := by
    simp [Member.body, hm.value]
  rw [recordMembers, attempt_bind, attempt_of_eq hgoes, Option.bind_some, if_pos rfl,
    attempt_bind, attempt_skip, Option.bind_some, hbody, List.tail_cons, attempt_bind,
    attempt_of_eq (hm.key _), Option.bind_some, if_neg (fun h => hnew h.2), attempt_bind,
    attempt_colon hm.spaced.middle, Option.bind_some, attempt_bind, hone, recorded?,
    List.foldlM_cons]
  cases (field record e.1).result? e.2 with
  | none => rfl
  | some next => exact hmore next

variable {ms : List Member} {entries : List (String × List UInt8)}

/-- Behind a member of an object, the others make of a record what they make of it one after the
other. -/
theorem attempt_recordMembers_further (h : List.Forall₂ Member.Gives ms entries)
    (hnew : ∀ e ∈ entries, e.1 ∉ seen) (hdistinct : (entries.map Prod.fst).Nodup)
    (hfield : ∀ e ∈ entries, ∀ record, Settles (field record e.1) e.2) {gap : List UInt8}
    (hgap : Blank gap) (hfuel : (further (ms.map Member.text)).length < fuel.length) :
    (recordMembers known field fuel seen false record).attempt
        (gap ++ (further (ms.map Member.text) ++ 0x7D :: rest)) =
      (recorded? field record entries).map (·, 0x7D :: rest) := by
  induction h generalizing gap fuel seen record with
  | nil =>
    refine attempt_recordMembers_nil ?_ (Nat.zero_lt_of_lt hfuel)
    exact (hasKey_gap hgap false _).trans (hasKey_close false rest)
  | @cons m e more entries hm h ih =>
    obtain ⟨f, fuel, rfl⟩ := List.exists_cons_of_length_pos (Nat.zero_lt_of_lt hfuel)
    obtain ⟨he, hnew⟩ := List.forall_mem_cons.1 hnew
    obtain ⟨hsettles, hfield⟩ := List.forall_mem_cons.1 hfield
    rw [List.map_cons, List.nodup_cons] at hdistinct
    rw [List.map_cons, further_cons] at hfuel ⊢
    refine attempt_recordMembers_cons hm he (hsettles record) ?_ fun record =>
      ih ?_ hdistinct.2 hfield hm.spaced.after ?_
    · rw [hasKey_gap hgap, Member.text]
      simp only [List.cons_append, List.append_assoc]
      exact hasKey_comma_body hm.spaced.before m _
    · intro o ho hmem
      rcases List.mem_cons.1 hmem with heq | hmem
      · exact hdistinct.1 (heq ▸ List.mem_map_of_mem ho)
      · exact hnew o ho hmem
    · simp at hfuel
      omega

/-- The members of an object make of a record what they make of it one after the other. -/
theorem attempt_recordMembers_listed (h : List.Forall₂ Member.Gives ms entries)
    (hdistinct : (entries.map Prod.fst).Nodup)
    (hfield : ∀ e ∈ entries, ∀ record, Settles (field record e.1) e.2) {gap : List UInt8}
    (hgap : Blank gap) (hfuel : (listed gap (ms.map Member.text)).length < fuel.length) :
    (recordMembers known field fuel [] true record).attempt
        (listed gap (ms.map Member.text) ++ 0x7D :: rest) =
      (recorded? field record entries).map (·, 0x7D :: rest) := by
  cases h with
  | nil =>
    refine attempt_recordMembers_nil ?_ (Nat.zero_lt_of_lt hfuel)
    exact (hasKey_gap hgap true _).trans (hasKey_close true rest)
  | @cons m e more entries hm h =>
    obtain ⟨f, fuel, rfl⟩ := List.exists_cons_of_length_pos (Nat.zero_lt_of_lt hfuel)
    obtain ⟨hsettles, hfield⟩ := List.forall_mem_cons.1 hfield
    rw [List.map_cons, List.nodup_cons] at hdistinct
    rw [List.map_cons, listed] at hfuel ⊢
    refine attempt_recordMembers_cons hm List.not_mem_nil (hsettles record) ?_ fun record =>
      attempt_recordMembers_further h ?_ hdistinct.2 hfield hm.spaced.after ?_
    · rw [Member.text]
      simp only [List.append_assoc]
      exact (hasKey_gap hm.spaced.before true _).trans (hasKey_body m _)
    · intro o ho hmem
      exact hdistinct.1 (List.mem_singleton.1 hmem ▸ List.mem_map_of_mem ho)
    · simp [Member.text, Member.body] at hfuel
      omega

/-- An object makes of a record what its members make of it, one after the other. -/
theorem attempt_recordObject {field : Nat → σ → String → Reader σ} {depth : Nat}
    (hdepth : 1 < depth) {w : List UInt8} (h : ObjectOf entries w)
    (hdistinct : (entries.map Prod.fst).Nodup)
    (hfield : ∀ e ∈ entries, ∀ record, Settles (field (depth - 1) record e.1) e.2)
    (record : σ) (rest : List UInt8) :
    (recordObject known field depth record).attempt (w ++ rest) =
      (recorded? (field (depth - 1)) record entries).map (·, rest) := by
  obtain @⟨gap, ms, entries, hgap, h⟩ := h
  rw [List.cons_append, List.append_assoc, List.singleton_append, recordObject, attempt_bind,
    attempt_of_eq (enter_cons hdepth _ _), Option.bind_some, attempt_bind, attempt_get,
    Option.bind_some, attempt_bind]
  rw [attempt_recordMembers_listed h hdistinct hfield hgap (by simp)]
  cases recorded? (field (depth - 1)) record entries <;> rfl

end Records

/-! ## Values -/

section Values

variable (n : Nat)

theorem attempt_value_string (text : List UInt8) : (value n).attempt (0x22 :: text) =
    (do return .string (← stringBody) : Reader Json).attempt text := by
  cases n <;> rfl

theorem attempt_value_negative (text : List UInt8) : (value n).attempt (0x2D :: text) =
    (do return .number (← numberBody true) : Reader Json).attempt text := by
  cases n <;> rfl

theorem attempt_value_digit {d : UInt8} (hd : isDigit d = true) (text : List UInt8) :
    (value n).attempt (d :: text) =
      (do return .number (← numberBody false) : Reader Json).attempt (d :: text) := by
  have hd := eq_of_isDigit hd
  simp only [List.mem_cons, List.not_mem_nil, or_false] at hd
  rcases hd with rfl | rfl | rfl | rfl | rfl | rfl | rfl | rfl | rfl | rfl <;> cases n <;> rfl

theorem attempt_value_array (text : List UInt8) : (value (n + 1)).attempt (0x5B :: text) =
    ((items (value n) text true).attempt text).map fun p => (.array p.1, p.2.tail) := by
  change (do
    let vs ← items (value n) text true
    skip
    return .array vs : Reader Json).attempt text = _
  rw [attempt_bind]
  cases (items (value n) text true).attempt text <;> rfl

theorem attempt_value_object (text : List UInt8) : (value (n + 1)).attempt (0x7B :: text) =
    ((members (value n) text true).attempt text).map fun p => (.object p.1, p.2.tail) := by
  change (do
    let ms ← members (value n) text true
    skip
    return .object ms : Reader Json).attempt text = _
  rw [attempt_bind]
  cases (members (value n) text true).attempt text <;> rfl

end Values

/-- Any value is taken, or refused, for itself. -/
theorem settles_value {w : List UInt8} (h : IsValue w) (n : Nat) : Settles (value n) w := by
  have hblank (n : Nat) : ∀ gap text, Blank gap →
      (value n).attempt (gap ++ text) = (value n).attempt text :=
    fun gap text hgap => congrArg Except.toOption (value_gap hgap n text)
  induction h generalizing n with
  | null => exact settles_of_gap (hblank n) ⟨some .null, fun rest _ => by cases n <;> rfl⟩
  | true => exact settles_of_gap (hblank n) ⟨some (.bool true), fun rest _ => by cases n <;> rfl⟩
  | false => exact settles_of_gap (hblank n) ⟨some (.bool false), fun rest _ => by cases n <;> rfl⟩
  | @string body h =>
    refine settles_of_gap (hblank n)
      ⟨(stringBody.result? (body ++ [0x22])).map .string, fun rest _ => ?_⟩
    rw [List.cons_append, List.append_assoc, attempt_value_string, attempt_map,
      List.singleton_append, attempt_stringBody h]
    cases stringBody.result? (body ++ [0x22]) <;> rfl
  | @number w h =>
    obtain ⟨o, ho⟩ := exists_numberBody false h
    refine settles_of_gap (hblank n) ⟨o.map .number, fun rest hrest => ?_⟩
    obtain ⟨d, more, rfl, hd⟩ := h.exists_cons
    rw [List.cons_append, attempt_value_digit n hd, attempt_map, ← List.cons_append, ho rest hrest]
    cases o <;> rfl
  | @negative w h =>
    obtain ⟨o, ho⟩ := exists_numberBody true h
    refine settles_of_gap (hblank n) ⟨o.map .number, fun rest hrest => ?_⟩
    rw [List.cons_append, attempt_value_negative, attempt_map, ho rest hrest]
    cases o <;> rfl
  | @array gap is hgap hspaced h ih =>
    refine settles_of_gap (hblank n) ?_
    cases n with
    | zero => exact ⟨none, fun rest _ => rfl⟩
    | succ n =>
      refine ⟨(is.mapM fun i => (value n).result? i.value).map .array, fun rest _ => ?_⟩
      rw [List.cons_append, List.append_assoc, List.singleton_append, attempt_value_array,
        attempt_items_listed hspaced h (fun i hi => ih i hi n) hgap (by simp)]
      cases is.mapM fun i => (value n).result? i.value <;> rfl
  | @object gap ms hgap hms h ih =>
    refine settles_of_gap (hblank n) ?_
    cases n with
    | zero => exact ⟨none, fun rest _ => rfl⟩
    | succ n =>
      refine ⟨(ms.mapM (Member.entry? (value n))).map .object, fun rest _ => ?_⟩
      rw [List.cons_append, List.append_assoc, List.singleton_append, attempt_value_object,
        attempt_members_listed hms (fun m hm => ih m hm n) hgap (by simp)]
      cases ms.mapM (Member.entry? (value n)) <;> rfl

/-! ## Values of a given kind -/

section Kinds

variable {α : Type} {w : List UInt8}

/-- A value of another kind is always refused. -/
theorem attempt_wrongType (expected : Expected) (text : List UInt8) :
    (wrongType expected : Reader α).attempt text = none := by
  rw [wrongType, attempt_bind, attempt_peek?, Option.bind_some]
  split <;> try simp
  split_ifs <;> simp

theorem attempt_token {b : UInt8} (hb : isSpace b = false) (f : Option Char → Reader α)
    (text : List UInt8) :
    (peekToken? >>= f).attempt (b :: text) = (f (some (charOf b))).attempt (b :: text) := by
  rw [attempt_bind, attempt_of_eq (peekToken?_cons hb text), Option.bind_some]

/-- A value that is refused for its first byte. -/
theorem settles_of_refused {f : Option Char → Reader α} {b : UInt8} {more : List UInt8}
    (hb : isSpace b = false) (h : ∀ text, (f (some (charOf b))).attempt text = none) :
    Settles (peekToken? >>= f) (b :: more) := by
  refine settles_of_token ⟨none, fun rest _ => ?_⟩
  rw [List.cons_append, attempt_token hb, h]
  rfl

/-- Whether a text begins with a character of the given kind. -/
def BeginsWith (kind : Char → Bool) (w : List UInt8) : Prop :=
  ∃ b ∈ w.head?, kind (charOf b) = true

theorem beginsWith_cons {kind : Char → Bool} {b : UInt8} {more : List UInt8} :
    BeginsWith kind (b :: more) ↔ kind (charOf b) = true := by
  simp [BeginsWith]

/-- A number without a minus sign begins with one of the digits. -/
theorem Magnitude.not_beginsWith {kind : Char → Bool} (hw : Magnitude w)
    (h : ∀ c ∈ ['0', '1', '2', '3', '4', '5', '6', '7', '8', '9'], kind c = false) :
    ¬BeginsWith kind w := by
  obtain ⟨d, more, rfl, hd⟩ := hw.exists_cons
  have hall : ∀ d ∈ [0x30, 0x31, 0x32, 0x33, 0x34, 0x35, 0x36, 0x37, 0x38, 0x39],
      charOf d ∈ ['0', '1', '2', '3', '4', '5', '6', '7', '8', '9'] := by
    decide +kernel
  rw [beginsWith_cons, h _ (hall d (eq_of_isDigit hd))]
  exact Bool.false_ne_true

/-- A reader that refuses a value for its first byte, unless it is of one kind, settles on all values
if it settles on those that begin in this way. -/
theorem settles_of_kind {f : Option Char → Reader α} (hw : IsValue w) (kind : Char → Bool)
    (hwrong : ∀ c, kind c = false → ∀ text, (f (some c)).attempt text = none)
    (hright : BeginsWith kind w → Settles (peekToken? >>= f) w) :
    Settles (peekToken? >>= f) w := by
  obtain ⟨b, more, hcons, hspace, -⟩ := hw.begins []
  rw [List.append_nil] at hcons
  subst hcons
  cases hkind : kind (charOf b) with
  | true => exact hright (beginsWith_cons.2 hkind)
  | false => exact settles_of_refused hspace (hwrong _ hkind)

theorem settles_stringValue (expected : Expected) (h : IsValue w) :
    Settles (stringValue expected) w := by
  refine settles_of_kind h (· == '"') (fun c hc => ?_) fun hstart => ?_
  · split
    · simp_all
    · simp_all
    · exact attempt_wrongType expected
  · cases h with
    | @string body h =>
      refine settles_of_token ⟨stringBody.result? (body ++ [0x22]), fun rest _ => ?_⟩
      rw [List.cons_append, List.append_assoc, List.singleton_append, attempt_token (by decide)]
      exact attempt_stringBody h rest
    | number h => exact absurd hstart (h.not_beginsWith (by decide))
    | _ => exact absurd (beginsWith_cons.1 hstart) (by decide)

theorem settles_boolValue (h : IsValue w) : Settles boolValue w := by
  refine settles_of_kind h (fun c => c == 't' || c == 'f') (fun c hc => ?_) fun hstart => ?_
  · split
    · simp_all
    · simp_all
    · simp_all
    · exact attempt_wrongType .boolean
  · cases h with
    | true => exact settles_of_token ⟨some true, fun rest _ => rfl⟩
    | false => exact settles_of_token ⟨some false, fun rest _ => rfl⟩
    | number h => exact absurd hstart (h.not_beginsWith (by decide))
    | _ => exact absurd (beginsWith_cons.1 hstart) (by decide)

theorem settles_unitValue (h : IsValue w) : Settles unitValue w := by
  refine settles_of_kind h (· == 'n') (fun c hc => ?_) fun hstart => ?_
  · split
    · simp_all
    · simp_all
    · exact attempt_wrongType .unit
  · cases h with
    | null => exact settles_of_token ⟨some (), fun rest _ => rfl⟩
    | number h => exact absurd hstart (h.not_beginsWith (by decide))
    | _ => exact absurd (beginsWith_cons.1 hstart) (by decide)

theorem steady_unsignedOfNumber (n : Number) : Steady (unsignedOfNumber n) := by
  unfold unsignedOfNumber
  split
  · split_ifs
    · exact steady_pure _
    · exact steady_failAfter _
  · exact steady_failAfter _

/-- An unsigned number, if it is one, is made of any number that is read. -/
theorem exists_unsigned {w : List UInt8} (negative : Bool) (h : Magnitude w) :
    ∃ o : Option UInt64, ∀ rest, Stops rest →
      (do unsignedOfNumber (← numberBody negative) : Reader UInt64).attempt (w ++ rest) =
        o.map (·, rest) := by
  obtain ⟨o, ho⟩ := exists_numberBody negative h
  cases o with
  | none =>
    refine ⟨none, fun rest hrest => ?_⟩
    rw [attempt_bind, ho rest hrest]
    rfl
  | some n =>
    obtain ⟨o, hn⟩ := steady_unsignedOfNumber n
    refine ⟨o, fun rest hrest => ?_⟩
    rw [attempt_bind, ho rest hrest]
    exact hn rest

theorem settles_unsignedValue (h : IsValue w) : Settles unsignedValue w := by
  refine settles_of_kind h (fun c => c == '-' || c.isDigit) (fun c hc => ?_) fun hstart => ?_
  · split
    · simp_all
    · simp_all
    · split_ifs
      · simp_all
      · exact attempt_wrongType .unsigned
  · cases h with
    | number h =>
      obtain ⟨o, ho⟩ := exists_unsigned false h
      refine settles_of_token ⟨o, fun rest hrest => ?_⟩
      rw [← ho rest hrest]
      obtain ⟨d, more, rfl, hd⟩ := h.exists_cons
      have hd := eq_of_isDigit hd
      rw [List.cons_append]
      fin_cases hd <;> rfl
    | negative h =>
      obtain ⟨o, ho⟩ := exists_unsigned true h
      refine settles_of_token ⟨o, fun rest hrest => ?_⟩
      rw [← ho rest hrest, List.cons_append, attempt_token (by decide)]
      rfl
    | _ => exact absurd (beginsWith_cons.1 hstart) (by decide)

/-- A container that would be nested too deeply is refused. -/
theorem attempt_enter_bind {depth : Nat} (hdepth : ¬1 < depth) (f : Nat → Reader α)
    (text : List UInt8) : (enter depth >>= f).attempt text = none := by
  rw [attempt_bind, enter, if_pos (by omega)]
  rfl

theorem settles_listOf {item : Reader α} (hitem : ∀ w, IsValue w → Settles item w) (depth : Nat)
    (h : IsValue w) : Settles (listOf item depth) w := by
  refine settles_of_kind h (· == '[') (fun c hc => ?_) fun hstart => ?_
  · split
    · simp_all
    · simp_all
    · exact attempt_wrongType .sequence
  · cases h with
    | @array gap is hgap hspaced h =>
      by_cases hdepth : 1 < depth
      · refine settles_of_token ⟨is.mapM fun i => item.result? i.value, fun rest _ => ?_⟩
        rw [List.cons_append, List.append_assoc, List.singleton_append, attempt_token (by decide)]
        change (enter depth >>= fun _ => _).attempt _ = _
        rw [attempt_bind, attempt_of_eq (enter_cons hdepth _ _), Option.bind_some, attempt_bind,
          attempt_get, Option.bind_some, attempt_bind,
          attempt_items_listed hspaced h (fun i hi => hitem _ (h i hi)) hgap (by simp)]
        cases is.mapM fun i => item.result? i.value <;> rfl
      · exact settles_of_refused (by decide) (attempt_enter_bind hdepth _)
    | number h => exact absurd hstart (h.not_beginsWith (by decide))
    | _ => exact absurd (beginsWith_cons.1 hstart) (by decide)

end Kinds

end InterfaceSchema.Json
