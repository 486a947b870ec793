import InterfaceSchema.Proofs.Recovery
import InterfaceSchema.Proofs.Sameness

/-!
# Texts of interface trees

The texts that are written for index signatures and for interfaces are texts of JSON values, in
which a word is a string and a nested object is an object. Different trees have different texts, so
that even the order of members can be told from the text.

## Main definitions

* `TypeExpr.StandsAs` — the values that stand for a type.
* `IndexSignature.StandsAs` — the values that stand for an index signature.
-/

namespace InterfaceSchema

/-- The values that stand for a type: a string for a word, an object for an object. -/
inductive TypeExpr.StandsAs : TypeExpr → Json → Prop where
  | word (token : String) : StandsAs (.named token) (.string token)
  | object (inner : Interface) (members : List (String × Json)) :
    StandsAs (.object inner) (.object members)

/-- The values that stand for an index signature: its key and its value under their names. -/
inductive IndexSignature.StandsAs : IndexSignature → Json → Prop where
  | members (s : IndexSignature) {value : Json} (hvalue : s.value.StandsAs value) :
    StandsAs s (.object [("key", .string s.key), ("value", value)])

theorem TypeExpr.standsAs_toJson (type : TypeExpr) : type.StandsAs type.toJson := by
  cases type with
  | named token => exact .word token
  | object inner =>
    obtain ⟨name, ⟨members⟩, signatures⟩ := inner
    exact .object _ _

theorem IndexSignature.standsAs_toJson (s : IndexSignature) : s.StandsAs s.toJson := by
  obtain ⟨key, value⟩ := s
  exact .members ⟨key, value⟩ value.standsAs_toJson

/-- Every index signature has a value that stands for it, in the same order. -/
theorem standsAs_signaturesToJson (signatures : List IndexSignature) :
    List.Forall₂ IndexSignature.StandsAs signatures (signaturesToJson signatures) := by
  induction signatures with
  | nil => exact .nil
  | cons s rest ih => exact .cons s.standsAs_toJson ih

/-- A compact text without numbers is read as the value that it is the text of, by every reader
that allows as many containers inside one another. -/
theorem Json.parse_compact_of_nesting {v : Json} (hfree : v.NumberFree) {depth : Nat}
    (hdepth : v.nesting < depth) : parse depth (utf8 v.compact) = .ok v := by
  obtain ⟨n, rfl⟩ := Nat.exists_eq_add_one_of_ne_zero (Nat.ne_zero_of_lt hdepth)
  exact parse_compact ((fits_nesting hfree).mono (Nat.lt_succ_iff.1 hdepth))

/-- Index signatures have the same text exactly if they are the same in the same order, and this
text is that of an object which holds, under a single key, a value for each of them. Interfaces have
the same text exactly if they are the same, the order of their members included. -/
theorem encodeSignatures_unambiguous (l m : List IndexSignature) (i j : Interface) :
    (encodeSignatures l = encodeSignatures m ↔ sameSignatures l m = true) ∧
      (∃ items, List.Forall₂ IndexSignature.StandsAs l items ∧
        ∀ depth, (Json.object [("indexSignatures", .array items)]).nesting < depth →
          Json.parse depth (utf8 (encodeSignatures l)) =
            .ok (.object [("indexSignatures", .array items)])) ∧
      (i.toJson.compact = j.toJson.compact ↔ i.same j = true) := by
  refine ⟨?_, ?_, ?_⟩
  · rw [sameSignatures_iff]
    exact ⟨encodeSignatures_injective, congrArg encodeSignatures⟩
  · refine ⟨signaturesToJson l, standsAs_signaturesToJson l, fun depth hdepth => ?_⟩
    exact Json.parse_compact_of_nesting (numberFree_signaturesValue l) hdepth
  · rw [Interface.same_iff]
    constructor
    · intro h
      have hvalue := Json.compact_injective i.numberFree_toJson j.numberFree_toJson h
      exact Interface.toJson_injective i j hvalue
    · intro h
      rw [h]

end InterfaceSchema
