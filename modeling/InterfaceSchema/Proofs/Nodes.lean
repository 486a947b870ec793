import InterfaceSchema.Proofs.KeyOrder
import InterfaceSchema.Schema.Basic

/-!
# Nodes of documents

A document and the schema of a property are objects with a few keys, which come in one order
whatever is left out. So no key occurs twice, and what is stored under a key is found.

## Main definitions

* `PropertySchema.members`, `Schema.members` — the members of these objects.
-/

namespace InterfaceSchema

open Json

theorem sublist_keys_optionalMember (key : String) (text : Option String) :
    (keys (optionalMember key text)).Sublist [key] := by
  cases text with
  | none => exact List.nil_sublist _
  | some s => exact List.Sublist.refl _

theorem propertiesToJson_eq (entries : List (String × PropertySchema)) :
    propertiesToJson entries = entries.map fun e => (e.1, e.2.toJson) := by
  induction entries with
  | nil => rfl
  | cons e rest ih => rw [propertiesToJson, ih, List.map_cons]

theorem keys_propertiesToJson (entries : List (String × PropertySchema)) :
    keys (propertiesToJson entries) = entries.map Prod.fst := by
  rw [propertiesToJson_eq, keys, List.map_map]
  rfl

namespace PropertySchema

/-- The members of the schema of a property. -/
def members (p : PropertySchema) : List (String × Json) :=
  [("description", .string p.description), ("type", .string p.type)]
    ++ nestedMember p.properties ++ optionalMember "$comment" p.comment

theorem toJson_eq (p : PropertySchema) : p.toJson = .object p.members := by
  obtain ⟨description, type, properties, comment⟩ := p
  rw [toJson]
  rfl

variable (p : PropertySchema)

theorem sublist_keys :
    (keys p.members).Sublist ["description", "type", "properties", "$comment"] := by
  have hnested : (keys (nestedMember p.properties)).Sublist ["properties"] := by
    rcases p.properties with - | ⟨entries⟩
    · exact List.nil_sublist _
    · exact List.Sublist.refl _
  simp only [keys, members, List.map_append]
  exact ((List.Sublist.refl ["description", "type"]).append hnested).append
    (sublist_keys_optionalMember _ _)

theorem nodup_keys : (keys p.members).Nodup :=
  p.sublist_keys.nodup (by decide)

theorem member?_type : member? "type" p.members = some (.string p.type) :=
  (member?_eq_some_iff p.nodup_keys).2 (by simp [members])

theorem member?_required : member? "required" p.members = none :=
  member?_eq_none_iff.2 fun h => absurd (p.sublist_keys.subset h) (by decide)

theorem member?_properties : member? "properties" p.members =
    p.properties.map fun m => .object (propertiesToJson m.entries) := by
  obtain ⟨description, type, - | ⟨entries⟩, comment⟩ := p
  · refine member?_eq_none_iff.2 ?_
    cases comment <;> simp [members, nestedMember, optionalMember, keys]
  · exact (member?_eq_some_iff (nodup_keys _)).2 (by simp [members, nestedMember])

end PropertySchema

namespace Schema

/-- The members of a document. -/
def members (s : Schema) : List (String × Json) :=
  [("$schema", .string s.dialect), ("title", .string s.title)]
    ++ optionalMember "description" s.description
    ++ [("type", .string s.type),
      ("properties", .object (propertiesToJson s.properties.entries)),
      ("required", .array (s.required.map .string))]
    ++ optionalMember "$comment" s.comment

theorem toJson_eq (s : Schema) : s.toJson = .object s.members := rfl

variable (s : Schema)

theorem sublist_keys : (keys s.members).Sublist
    ["$schema", "title", "description", "type", "properties", "required", "$comment"] := by
  simp only [keys, members, List.map_append]
  exact (((List.Sublist.refl ["$schema", "title"]).append (sublist_keys_optionalMember _ _)).append
    (List.Sublist.refl ["type", "properties", "required"])).append (sublist_keys_optionalMember _ _)

theorem nodup_keys : (keys s.members).Nodup :=
  s.sublist_keys.nodup (by decide)

theorem member?_type : member? "type" s.members = some (.string s.type) :=
  (member?_eq_some_iff s.nodup_keys).2 (by simp [members])

theorem member?_properties : member? "properties" s.members =
    some (.object (propertiesToJson s.properties.entries)) :=
  (member?_eq_some_iff s.nodup_keys).2 (by simp [members])

theorem member?_required : member? "required" s.members =
    some (.array (s.required.map .string)) :=
  (member?_eq_some_iff s.nodup_keys).2 (by simp [members])

end Schema

end InterfaceSchema
