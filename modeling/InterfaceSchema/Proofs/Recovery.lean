import InterfaceSchema.Interface.Builder
import InterfaceSchema.Proofs.JsonReading
import InterfaceSchema.Proofs.Levels
import InterfaceSchema.Schema.Compile

/-!
# Recovering interfaces from schemas

Nothing of an interface is lost when it is compiled and written: the text of a schema can be read
back, and each step from the interface to the value that is read is injective. The name of a nested
object is not among what is written, so it has to be the name of its member.
-/

namespace InterfaceSchema

/-! ## Interfaces as values -/

mutual

theorem Interface.numberFree_toJson : ∀ i : Interface, i.toJson.NumberFree
  | ⟨name, ⟨members⟩, signatures⟩ => by
    have hmembers := Json.numberFree_object (numberFree_membersToJson members)
    have hsignatures := Json.numberFree_array (numberFree_signaturesToJson signatures)
    refine Json.numberFree_object ?_
    simp only [List.forall_mem_cons]
    exact ⟨Json.numberFree_string name, hmembers, hsignatures, by simp⟩

theorem TypeExpr.numberFree_toJson : ∀ t : TypeExpr, t.toJson.NumberFree
  | .named token => Json.numberFree_string token
  | .object inner => inner.numberFree_toJson

theorem numberFree_membersToJson : ∀ members : List (String × TypeExpr),
    ∀ m ∈ membersToJson members, m.2.NumberFree
  | [] => by simp [membersToJson]
  | (_, t) :: rest => List.forall_mem_cons.2 ⟨t.numberFree_toJson, numberFree_membersToJson rest⟩

theorem IndexSignature.numberFree_toJson : ∀ s : IndexSignature, s.toJson.NumberFree
  | ⟨key, value⟩ => by
    refine Json.numberFree_object ?_
    simp only [List.forall_mem_cons]
    exact ⟨Json.numberFree_string key, value.numberFree_toJson, by simp⟩

theorem numberFree_signaturesToJson : ∀ signatures : List IndexSignature,
    ∀ v ∈ signaturesToJson signatures, v.NumberFree
  | [] => by simp [signaturesToJson]
  | s :: rest => List.forall_mem_cons.2 ⟨s.numberFree_toJson, numberFree_signaturesToJson rest⟩

end

mutual

/-- Interfaces written as the same value are the same. -/
theorem Interface.toJson_injective : ∀ i j : Interface, i.toJson = j.toJson → i = j
  | ⟨name, ⟨members⟩, signatures⟩, ⟨name', ⟨members'⟩, signatures'⟩, h => by
    simp only [Interface.toJson, Json.object.injEq, List.cons.injEq, Prod.mk.injEq, true_and,
      Json.string.injEq, Json.array.injEq, and_true] at h
    obtain ⟨rfl, hmembers, hsignatures⟩ := h
    rw [membersToJson_injective members members' hmembers,
      signaturesToJson_injective signatures signatures' hsignatures]

/-- A word is never written as an object is. -/
theorem TypeExpr.toJson_injective : ∀ s t : TypeExpr, s.toJson = t.toJson → s = t
  | .named _, .named _, h => by rw [Json.string.inj h]
  | .object i, .object j, h => by rw [Interface.toJson_injective i j h]
  | .named _, .object ⟨_, ⟨_⟩, _⟩, h => by cases h
  | .object ⟨_, ⟨_⟩, _⟩, .named _, h => by cases h

theorem membersToJson_injective : ∀ l m : List (String × TypeExpr),
    membersToJson l = membersToJson m → l = m
  | [], [], _ => rfl
  | [], _ :: _, h => by cases h
  | _ :: _, [], h => by cases h
  | (k, s) :: l, (k', t) :: m, h => by
    simp only [membersToJson, List.cons.injEq, Prod.mk.injEq] at h
    obtain ⟨⟨rfl, htype⟩, hrest⟩ := h
    rw [TypeExpr.toJson_injective s t htype, membersToJson_injective l m hrest]

theorem IndexSignature.toJson_injective : ∀ s t : IndexSignature, s.toJson = t.toJson → s = t
  | ⟨key, value⟩, ⟨key', value'⟩, h => by
    simp only [IndexSignature.toJson, Json.object.injEq, List.cons.injEq, Prod.mk.injEq, true_and,
      Json.string.injEq, and_true] at h
    obtain ⟨rfl, hvalue⟩ := h
    rw [TypeExpr.toJson_injective value value' hvalue]

theorem signaturesToJson_injective : ∀ l m : List IndexSignature,
    signaturesToJson l = signaturesToJson m → l = m
  | [], [], _ => rfl
  | [], _ :: _, h => by cases h
  | _ :: _, [], h => by cases h
  | s :: l, t :: m, h => by
    obtain ⟨hfirst, hrest⟩ := List.cons.inj h
    rw [IndexSignature.toJson_injective s t hfirst, signaturesToJson_injective l m hrest]

end

/-! ## Index signatures as text -/

/-- The value that is written for index signatures. -/
def signaturesValue (signatures : List IndexSignature) : Json :=
  .object [("indexSignatures", .array (signaturesToJson signatures))]

theorem numberFree_signaturesValue (signatures : List IndexSignature) :
    (signaturesValue signatures).NumberFree := by
  refine Json.numberFree_object ?_
  simp only [List.forall_mem_singleton]
  exact Json.numberFree_array (numberFree_signaturesToJson signatures)

theorem encodeSignatures_injective {l m : List IndexSignature}
    (h : encodeSignatures l = encodeSignatures m) : l = m := by
  have hvalue : signaturesValue l = signaturesValue m :=
    Json.compact_injective (numberFree_signaturesValue l) (numberFree_signaturesValue m) h
  simp only [signaturesValue, Json.object.injEq, List.cons.injEq, Prod.mk.injEq, true_and,
    Json.array.injEq, and_true] at hvalue
  exact signaturesToJson_injective l m hvalue

/-- The text that keeps index signatures is never empty. -/
theorem encodeSignatures_ne_empty (signatures : List IndexSignature) :
    encodeSignatures signatures ≠ "" := by
  intro h
  have hlist := congrArg String.toList h
  rw [encodeSignatures, Json.toList_compact] at hlist
  cases hlist

/-- Whether the text is left out or is empty when there are no index signatures, it tells what they
are. -/
theorem signatureText_getD_injective {l m : List IndexSignature}
    (h : (signatureText l).getD "" = (signatureText m).getD "") : l = m := by
  cases l with
  | nil =>
    cases m with
    | nil => rfl
    | cons t m => exact absurd h.symm (encodeSignatures_ne_empty (t :: m))
  | cons s l =>
    cases m with
    | nil => exact absurd h (encodeSignatures_ne_empty (s :: l))
    | cons t m => exact encodeSignatures_injective h

theorem signatureText_injective {l m : List IndexSignature}
    (h : signatureText l = signatureText m) : l = m :=
  signatureText_getD_injective (by rw [h])

/-! ## Schemas as values -/

theorem numberFree_optionalMember (key : String) (text : Option String) :
    ∀ m ∈ optionalMember key text, m.2.NumberFree := by
  cases text with
  | none => exact fun m hm => absurd hm List.not_mem_nil
  | some s => simpa [optionalMember] using Json.numberFree_string s

mutual

theorem PropertySchema.numberFree_toJson : ∀ p : PropertySchema, p.toJson.NumberFree
  | ⟨description, type, properties, comment⟩ => by
    have hproperties := numberFree_nestedMember properties
    refine Json.numberFree_object ?_
    simp only [List.forall_mem_append, List.forall_mem_cons]
    exact ⟨⟨⟨Json.numberFree_string description, Json.numberFree_string type, by simp⟩,
      hproperties⟩, numberFree_optionalMember _ comment⟩

theorem numberFree_nestedMember : ∀ properties : Option (FieldMap PropertySchema),
    ∀ m ∈ nestedMember properties, m.2.NumberFree
  | none => by simp [nestedMember]
  | some ⟨entries⟩ => by
    have hentries := Json.numberFree_object (numberFree_propertiesToJson entries)
    simpa [nestedMember] using hentries

theorem numberFree_propertiesToJson : ∀ entries : List (String × PropertySchema),
    ∀ m ∈ propertiesToJson entries, m.2.NumberFree
  | [] => by simp [propertiesToJson]
  | (_, p) :: rest =>
    List.forall_mem_cons.2 ⟨p.numberFree_toJson, numberFree_propertiesToJson rest⟩

end

theorem Schema.numberFree_toJson (s : Schema) : s.toJson.NumberFree := by
  have hrequired : ∀ v ∈ s.required.map Json.string, v.NumberFree := by
    simpa using fun r _ => Json.numberFree_string r
  refine Json.numberFree_object ?_
  simp only [List.forall_mem_append, List.forall_mem_cons]
  exact ⟨⟨⟨⟨Json.numberFree_string _, Json.numberFree_string _, by simp⟩,
      numberFree_optionalMember _ _⟩, Json.numberFree_string _,
      Json.numberFree_object (numberFree_propertiesToJson _), Json.numberFree_array hrequired,
      by simp⟩, numberFree_optionalMember _ _⟩

theorem optionalMember_injective {key : String} {s t : Option String}
    (h : optionalMember key s = optionalMember key t) : s = t := by
  cases s <;> cases t <;> simp_all [optionalMember]

mutual

theorem PropertySchema.toJson_injective : ∀ p q : PropertySchema, p.toJson = q.toJson → p = q
  | ⟨description, type, properties, comment⟩, ⟨description', type', properties', comment'⟩, h => by
    simp only [PropertySchema.toJson, Json.object.injEq, List.cons_append, List.nil_append,
      List.cons.injEq, Prod.mk.injEq, true_and, Json.string.injEq] at h
    obtain ⟨rfl, rfl, hmembers⟩ := h
    obtain ⟨hproperties, hcomment⟩ := nestedMember_append properties properties' comment comment'
      hmembers
    rw [hproperties, hcomment]

/-- What is nested in a property and its comment can be told apart by their keys. -/
theorem nestedMember_append : ∀ (properties properties' : Option (FieldMap PropertySchema))
    (comment comment' : Option String),
    nestedMember properties ++ optionalMember "$comment" comment =
        nestedMember properties' ++ optionalMember "$comment" comment' →
      properties = properties' ∧ comment = comment'
  | none, none, _, _, h => ⟨rfl, optionalMember_injective h⟩
  | none, some ⟨_⟩, comment, _, h => by
    cases comment <;> simp [nestedMember, optionalMember] at h
  | some ⟨_⟩, none, _, comment', h => by
    cases comment' <;> simp [nestedMember, optionalMember] at h
  | some ⟨entries⟩, some ⟨entries'⟩, _, _, h => by
    simp only [nestedMember, List.cons_append, List.nil_append, List.cons.injEq, Prod.mk.injEq,
      true_and, Json.object.injEq] at h
    exact ⟨by rw [propertiesToJson_injective entries entries' h.1], optionalMember_injective h.2⟩

theorem propertiesToJson_injective : ∀ l m : List (String × PropertySchema),
    propertiesToJson l = propertiesToJson m → l = m
  | [], [], _ => rfl
  | [], _ :: _, h => by cases h
  | _ :: _, [], h => by cases h
  | (k, p) :: l, (k', q) :: m, h => by
    simp only [propertiesToJson, List.cons.injEq, Prod.mk.injEq] at h
    obtain ⟨⟨rfl, hproperty⟩, hrest⟩ := h
    rw [PropertySchema.toJson_injective p q hproperty, propertiesToJson_injective l m hrest]

end

theorem Schema.toJson_injective {s t : Schema} (h : s.toJson = t.toJson) : s = t := by
  obtain ⟨dialect, title, description, type, ⟨properties⟩, required, comment⟩ := s
  obtain ⟨dialect', title', description', type', ⟨properties'⟩, required', comment'⟩ := t
  simp only [Schema.toJson, Json.object.injEq, List.cons_append, List.nil_append,
    List.append_assoc, List.cons.injEq, Prod.mk.injEq, true_and, Json.string.injEq] at h
  obtain ⟨rfl, rfl, h⟩ := h
  have hdescription : description = description' := by
    cases description <;> cases description' <;> simp_all [optionalMember]
  subst hdescription
  have hrest := List.append_cancel_left h
  simp only [List.cons.injEq, Prod.mk.injEq, true_and, Json.string.injEq, Json.object.injEq,
    Json.array.injEq] at hrest
  obtain ⟨rfl, hproperties, hrequired, hcomment⟩ := hrest
  rw [propertiesToJson_injective _ _ hproperties, optionalMember_injective hcomment,
    (List.map_inj_right fun _ _ => Json.string.inj).1 hrequired]

theorem Schema.text_injective {s t : Schema} (h : utf8 s.text = utf8 t.text) : s = t :=
  toJson_injective (Json.indented_injective s.numberFree_toJson t.numberFree_toJson h)

/-! ## Compiled interfaces -/

theorem Interface.properties_compileNested (placement : SignaturePlacement) (i : Interface) :
    (i.compileNested placement).properties = some ⟨compileMembers placement i.members.entries⟩ := by
  obtain ⟨name, ⟨members⟩, signatures⟩ := i
  cases placement <;> rfl

mutual

/-- Nested objects of one name that are compiled to the same schema are the same. -/
theorem Interface.compileNested_injective (placement : SignaturePlacement) : ∀ i j : Interface,
    i.Named → j.Named → i.name = j.name →
      i.compileNested placement = j.compileNested placement → i = j
  | ⟨name, ⟨members⟩, signatures⟩, ⟨name', ⟨members'⟩, signatures'⟩, hi, hj, hname, h => by
    have hboth : compileMembers placement members = compileMembers placement members' ∧
        signatures = signatures' := by
      cases placement with
      | legacy =>
        simp only [Interface.compileNested, PropertySchema.mk.injEq, Option.some.injEq,
          FieldMap.mk.injEq, true_and, and_true] at h
        exact ⟨h.2, signatureText_getD_injective h.1⟩
      | uniform =>
        simp only [Interface.compileNested, PropertySchema.mk.injEq, Option.some.injEq,
          FieldMap.mk.injEq, true_and] at h
        exact ⟨h.1, signatureText_injective h.2⟩
    have hmembers := compileMembers_injective placement members members'
      (hi _ (Interface.mem_levels_self _)) (hj _ (Interface.mem_levels_self _))
      (fun level hl => hi level (List.mem_cons_of_mem _ hl))
      (fun level hl => hj level (List.mem_cons_of_mem _ hl)) hboth.1
    rw [hmembers, hboth.2, show name = name' from hname]

/-- A word is never compiled to the schema of an object. -/
theorem TypeExpr.compile_injective (placement : SignaturePlacement) {key : String} :
    ∀ s t : TypeExpr, NamesObject (key, s) → NamesObject (key, t) →
      (∀ level ∈ s.levels, ∀ e ∈ level.members.entries, NamesObject e) →
        (∀ level ∈ t.levels, ∀ e ∈ level.members.entries, NamesObject e) →
          s.compile placement = t.compile placement → s = t
  | .named token, .named token', _, _, _, _, h => by
    simp only [TypeExpr.compile, PropertySchema.leaf, PropertySchema.mk.injEq, true_and, and_true]
      at h
    rw [h]
  | .object i, .object j, hs, ht, hi, hj, h => by
    have hname : i.name = j.name := (hs i rfl).trans (ht j rfl).symm
    rw [Interface.compileNested_injective placement i j hi hj hname h]
  | .named _, .object j, _, _, _, _, h => by
    have hproperties := congrArg PropertySchema.properties h
    rw [TypeExpr.compile, TypeExpr.compile, j.properties_compileNested] at hproperties
    cases hproperties
  | .object i, .named _, _, _, _, _, h => by
    have hproperties := congrArg PropertySchema.properties h
    rw [TypeExpr.compile, TypeExpr.compile, i.properties_compileNested] at hproperties
    cases hproperties

theorem compileMembers_injective (placement : SignaturePlacement) :
    ∀ l m : List (String × TypeExpr), (∀ e ∈ l, NamesObject e) → (∀ e ∈ m, NamesObject e) →
      (∀ level ∈ memberLevels l, ∀ e ∈ level.members.entries, NamesObject e) →
        (∀ level ∈ memberLevels m, ∀ e ∈ level.members.entries, NamesObject e) →
          compileMembers placement l = compileMembers placement m → l = m
  | [], [], _, _, _, _, _ => rfl
  | [], _ :: _, _, _, _, _, h => by cases h
  | _ :: _, [], _, _, _, _, h => by cases h
  | (k, s) :: l, (k', t) :: m, hl, hm, hbl, hbm, h => by
    simp only [compileMembers, List.cons.injEq, Prod.mk.injEq] at h
    obtain ⟨⟨rfl, htype⟩, hrest⟩ := h
    obtain ⟨hs, hl⟩ := List.forall_mem_cons.1 hl
    obtain ⟨ht, hm⟩ := List.forall_mem_cons.1 hm
    obtain ⟨hbs, hbl⟩ := forall_mem_memberLevels_cons hbl
    obtain ⟨hbt, hbm⟩ := forall_mem_memberLevels_cons hbm
    rw [TypeExpr.compile_injective placement s t hs ht hbs hbt htype,
      compileMembers_injective placement l m hl hm hbl hbm hrest]

end

/-- Interfaces whose schemas are written with the same bytes are the same, wherever index
signatures are kept. -/
theorem eq_of_text_compile_eq (placement : SignaturePlacement) {i j : Interface} (hi : i.Named)
    (hj : j.Named) (h : utf8 (i.compile placement).text = utf8 (j.compile placement).text) :
    i = j := by
  obtain ⟨name, ⟨members⟩, signatures⟩ := i
  obtain ⟨name', ⟨members'⟩, signatures'⟩ := j
  have hschema := Schema.text_injective h
  simp only [Interface.compile, Schema.mk.injEq, FieldMap.mk.injEq, true_and] at hschema
  obtain ⟨rfl, hproperties, -, hcomment⟩ := hschema
  have hmembers := compileMembers_injective placement members members'
    (hi _ (Interface.mem_levels_self _)) (hj _ (Interface.mem_levels_self _))
    (fun level hl => hi level (List.mem_cons_of_mem _ hl))
    (fun level hl => hj level (List.mem_cons_of_mem _ hl)) hproperties
  rw [hmembers, signatureText_injective hcomment]

/-- An interface that was read, with an index signature in a nested object. -/
theorem eq_of_text_compile_eq_nested :
    (Declaration.interface {} ⟨"interface", "A",
        ["x:", "\x7b", "[key:", "string]:", "object;", "\x7d", "y:", "object;"]⟩).1 =
      ⟨"A", ⟨[("x", .object ⟨"x", ∅, [⟨"string", .named "object"⟩]⟩),
        ("y", .named "object")]⟩, []⟩ :=
  eq_of_text_compile_eq .legacy (by decide) (by decide) rfl

end InterfaceSchema
