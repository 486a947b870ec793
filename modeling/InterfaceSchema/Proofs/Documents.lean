import InterfaceSchema.Proofs.Nodes
import InterfaceSchema.Proofs.Outputs
import InterfaceSchema.Proofs.Sameness
import InterfaceSchema.Proofs.Verdict

/-!
# Written documents

A schema is checked as a value with sorted keys, and written as a text in which keys have their
declared order. Reading the text gives the value that was checked. No key comes twice, because
properties have distinct names and the other keys of a node differ.

## Main definitions

* `Schema.propertyMaps` — the properties of a schema and of the objects nested in it.
* `Schema.DistinctProperties` — schemas in which no object has two properties of one name.
-/

namespace InterfaceSchema

/-! ## Distinct properties -/

mutual

/-- The properties of the object that a property is, and of the objects nested in it. -/
def PropertySchema.propertyMaps : PropertySchema → List (FieldMap PropertySchema)
  | ⟨_, _, properties, _⟩ => nestedMaps properties

/-- The given properties, and those of the objects nested in them. -/
def nestedMaps : Option (FieldMap PropertySchema) → List (FieldMap PropertySchema)
  | none => []
  | some ⟨entries⟩ => ⟨entries⟩ :: entryMaps entries

/-- The properties of the objects that some entries are. -/
def entryMaps : List (String × PropertySchema) → List (FieldMap PropertySchema)
  | [] => []
  | (_, p) :: rest => p.propertyMaps ++ entryMaps rest

end

/-- The properties of a schema, and those of the objects nested in it. -/
def Schema.propertyMaps (s : Schema) : List (FieldMap PropertySchema) :=
  nestedMaps (some s.properties)

/-- Whether no object of a schema has two properties of one name. -/
def Schema.DistinctProperties (s : Schema) : Prop :=
  ∀ m ∈ s.propertyMaps, m.Distinct

instance (s : Schema) : Decidable s.DistinctProperties :=
  inferInstanceAs (Decidable (∀ m ∈ s.propertyMaps, m.keys.Nodup))

theorem distinct_compileMembers (placement : SignaturePlacement)
    {members : List (String × TypeExpr)} (h : (members.map Prod.fst).Nodup) :
    FieldMap.Distinct ⟨compileMembers placement members⟩ := by
  rw [FieldMap.Distinct, keys_compileMembers]
  exact h

mutual

theorem TypeExpr.distinct_compile (placement : SignaturePlacement) : ∀ t : TypeExpr,
    (∀ level ∈ t.levels, level.members.Distinct) →
      ∀ m ∈ (t.compile placement).propertyMaps, m.Distinct
  | .named _, _ => fun m hm => absurd hm List.not_mem_nil
  | .object ⟨name, ⟨members⟩, signatures⟩, h => by
    have hmaps : (TypeExpr.compile placement (.object ⟨name, ⟨members⟩, signatures⟩)).propertyMaps =
        ⟨compileMembers placement members⟩ :: entryMaps (compileMembers placement members) := by
      cases placement <;> rfl
    rw [hmaps]
    exact List.forall_mem_cons.2 ⟨distinct_compileMembers placement
      (h _ (Interface.mem_levels_self _)), distinct_entryMaps placement members
        fun level hlevel => h level (List.mem_cons_of_mem _ hlevel)⟩

theorem distinct_entryMaps (placement : SignaturePlacement) : ∀ members : List (String × TypeExpr),
    (∀ level ∈ memberLevels members, level.members.Distinct) →
      ∀ m ∈ entryMaps (compileMembers placement members), m.Distinct
  | [], _ => fun m hm => absurd hm List.not_mem_nil
  | (_, type) :: rest, h => by
    obtain ⟨htype, hrest⟩ := forall_mem_memberLevels_cons h
    exact List.forall_mem_append.2
      ⟨type.distinct_compile placement htype, distinct_entryMaps placement rest hrest⟩

end

/-- Members of distinct names are compiled to properties of distinct names. -/
theorem Interface.distinctProperties_compile (placement : SignaturePlacement) {i : Interface}
    (hi : i.DistinctMembers) : (i.compile placement).DistinctProperties := by
  obtain ⟨name, ⟨members⟩, signatures⟩ := i
  exact List.forall_mem_cons.2 ⟨distinct_compileMembers placement
    (hi _ (Interface.mem_levels_self _)), distinct_entryMaps placement members
      fun level hlevel => hi level (List.mem_cons_of_mem _ hlevel)⟩

/-! ## Distinct keys -/

theorem keysDistinct_optionalMember (key : String) (text : Option String) :
    ∀ m ∈ optionalMember key text, m.2.KeysDistinct := by
  cases text with
  | none => exact fun m hm => absurd hm List.not_mem_nil
  | some s => simpa [optionalMember] using Json.KeysDistinct.string s

mutual

theorem PropertySchema.keysDistinct_toJson : ∀ p : PropertySchema,
    (∀ m ∈ p.propertyMaps, m.Distinct) → p.toJson.KeysDistinct
  | ⟨description, type, properties, comment⟩, h => by
    have hnested := keysDistinct_nestedMember properties h
    rw [PropertySchema.toJson_eq]
    refine .object (PropertySchema.nodup_keys _) ?_
    simp only [PropertySchema.members, List.forall_mem_append, List.forall_mem_cons]
    exact ⟨⟨⟨.string description, .string type, by simp⟩, hnested⟩,
      keysDistinct_optionalMember _ comment⟩

theorem keysDistinct_nestedMember : ∀ properties : Option (FieldMap PropertySchema),
    (∀ m ∈ nestedMaps properties, m.Distinct) →
      ∀ m ∈ nestedMember properties, m.2.KeysDistinct
  | none, _ => fun m hm => absurd hm List.not_mem_nil
  | some ⟨entries⟩, h => by
    obtain ⟨hhere, hbelow⟩ := List.forall_mem_cons.1 h
    refine List.forall_mem_singleton.2 (.object ?_ (keysDistinct_propertiesToJson entries hbelow))
    rw [keys_propertiesToJson]
    exact hhere

theorem keysDistinct_propertiesToJson : ∀ entries : List (String × PropertySchema),
    (∀ m ∈ entryMaps entries, m.Distinct) →
      ∀ m ∈ propertiesToJson entries, m.2.KeysDistinct
  | [], _ => fun m hm => absurd hm List.not_mem_nil
  | (_, p) :: rest, h => by
    obtain ⟨hp, hrest⟩ := List.forall_mem_append.1 h
    exact List.forall_mem_cons.2
      ⟨p.keysDistinct_toJson hp, keysDistinct_propertiesToJson rest hrest⟩

end

theorem Schema.keysDistinct_toJson {s : Schema} (hs : s.DistinctProperties) :
    s.toJson.KeysDistinct := by
  have hrequired : ∀ v ∈ s.required.map Json.string, v.KeysDistinct :=
    List.forall_mem_map.2 fun r _ => .string r
  have hproperties : ∀ m ∈ [("properties", Json.object (propertiesToJson s.properties.entries))],
      m.2.KeysDistinct := keysDistinct_nestedMember (some s.properties) hs
  rw [toJson_eq]
  refine .object s.nodup_keys ?_
  simp only [members, List.forall_mem_append, List.forall_mem_cons]
  simp only [List.forall_mem_cons] at hproperties
  exact ⟨⟨⟨⟨.string _, .string _, by simp⟩, keysDistinct_optionalMember _ _⟩, .string _,
    hproperties.1, .array hrequired, by simp⟩, keysDistinct_optionalMember _ _⟩

/-- The text of a schema is read as its value. -/
theorem Schema.readsAs_text {s : Schema} (hs : s.DistinctProperties) :
    Json.ReadsAs (utf8 s.text) s.value :=
  Json.readsAs_indented s.numberFree_toJson (keysDistinct_toJson hs)

/-! ## Published documents -/

/-- A schema is published only if its value is accepted, and then its text can be read back. -/
theorem FileTree.of_publish {t written : FileTree} {check : Validator} {outDir path : Path}
    {s : Schema} (h : t.publish check outDir s = .ok (path, written)) :
    check s.value = none ∧ written.read path = .ok (utf8 s.text) := by
  obtain ⟨hname, hcheck, rfl, hwrite⟩ := write_of_publish h
  exact ⟨hcheck, read_of_write hname hwrite⟩

/-- The document that is checked is the document that is written: the text of a schema is read as
its value, and what a path of a published schema leads to is read as the value that was accepted. -/
theorem publish_readsAs {s : Schema} (hs : s.DistinctProperties) :
    Json.ReadsAs (utf8 s.text) s.value ∧
      ∀ (t written : FileTree) (check : Validator) (outDir path : Path),
        t.publish check outDir s = .ok (path, written) →
          check s.value = none ∧
            ∃ bytes, written.read path = .ok bytes ∧ Json.ReadsAs bytes s.value := by
  have htext := Schema.readsAs_text hs
  refine ⟨htext, fun t written check outDir path h => ?_⟩
  obtain ⟨hcheck, hread⟩ := FileTree.of_publish h
  exact ⟨hcheck, utf8 s.text, hread, htext⟩

/-- A schema with keys and texts that have to be escaped, and a required name that is repeated. -/
theorem publish_readsAs_escaped :
    let s : Schema := ⟨Schema.draft07Dialect, "T", some "a \"b\"\\\n", Schema.objectType,
      ⟨[("ü", .leaf "string"),
        ("a\t", ⟨"", Schema.objectType, some ⟨[("\x01", .leaf "Date")]⟩, some ""⟩)]⟩,
      ["ü", "ü"], none⟩
    let t : FileTree := ⟨.directory ⟨[("out", .emptyDirectory)]⟩, []⟩
    let written := t.putAt ["out", "T.json"] (.file (utf8 s.text))
    t.publish acceptAll ⟨"/out"⟩ s = .ok (⟨"/out/T.json"⟩, written) ∧
      ∃ bytes, written.read ⟨"/out/T.json"⟩ = .ok bytes ∧ Json.ReadsAs bytes s.value := by
  intro s t written
  have hname : s.safeFileName? = some "T.json" := by decide +kernel
  have hpublish : t.publish acceptAll ⟨"/out"⟩ s = .ok (⟨"/out/T.json"⟩, written) := by
    rw [FileTree.publish, hname]
    rfl
  exact ⟨hpublish, ((publish_readsAs (by decide)).2 t written acceptAll _ _ hpublish).2⟩

end InterfaceSchema
