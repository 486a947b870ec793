import InterfaceSchema.Proofs.Placements

/-!
# Moving index signatures

The two schemas of an interface differ by where nested objects keep their index signatures, in their
descriptions or in their comments. So one schema is made from the other by a rewriting that knows
nothing of the interface: what stands in the description of a nested object is moved to its comment.
It finds nothing to move exactly if no object nested in the interface has an index signature.

## Main definitions

* `Schema.relocated` — a schema with the descriptions of nested objects moved to their comments.
* `Schema.nodes` — every node of a schema but the root.
-/

namespace InterfaceSchema

mutual

/-- The schema of a property with the descriptions of objects moved to their comments. An empty
description is not moved, and a node that is no object stays as it is. -/
def PropertySchema.relocated : PropertySchema → PropertySchema
  | ⟨description, type, none, comment⟩ => ⟨description, type, none, comment⟩
  | ⟨description, type, some ⟨entries⟩, comment⟩ =>
    ⟨"", type, some ⟨relocatedEntries entries⟩,
      if description = "" then comment else some description⟩

/-- The schemas of properties with descriptions moved to comments, under the same names. -/
def relocatedEntries : List (String × PropertySchema) → List (String × PropertySchema)
  | [] => []
  | (k, p) :: rest => (k, p.relocated) :: relocatedEntries rest

end

/-- The schema with the descriptions of all nested objects moved to their comments. The root stays
as it is. -/
def Schema.relocated (s : Schema) : Schema :=
  { s with properties := ⟨relocatedEntries s.properties.entries⟩ }

mutual

/-- A node and all nodes below it. -/
def PropertySchema.nodes : PropertySchema → List PropertySchema
  | ⟨description, type, none, comment⟩ => [⟨description, type, none, comment⟩]
  | ⟨description, type, some ⟨entries⟩, comment⟩ =>
    ⟨description, type, some ⟨entries⟩, comment⟩ :: entryNodes entries

/-- All nodes at and below the given properties. -/
def entryNodes : List (String × PropertySchema) → List PropertySchema
  | [] => []
  | (_, p) :: rest => p.nodes ++ entryNodes rest

end

/-- All nodes below the root of a schema. -/
def Schema.nodes (s : Schema) : List PropertySchema :=
  entryNodes s.properties.entries

/-! ## Moving descriptions -/

/-- The text that keeps index signatures is not empty, so it is moved, and nothing else is. -/
theorem relocated_signatureText (signatures : List IndexSignature) :
    (if (signatureText signatures).getD "" = "" then none
      else some ((signatureText signatures).getD "")) = signatureText signatures := by
  cases signatures with
  | nil => rfl
  | cons s rest => exact if_neg (encodeSignatures_ne_empty (s :: rest))

mutual

theorem Interface.relocated_compileNested : ∀ i : Interface,
    (i.compileNested .legacy).relocated = i.compileNested .uniform
  | ⟨name, ⟨members⟩, signatures⟩ => by
    rw [Interface.compileNested, PropertySchema.relocated, relocated_signatureText,
      relocatedEntries_compileMembers members]
    rfl

theorem TypeExpr.relocated_compile_legacy : ∀ type : TypeExpr,
    (type.compile .legacy).relocated = type.compile .uniform
  | .named _ => rfl
  | .object inner => inner.relocated_compileNested

theorem relocatedEntries_compileMembers : ∀ members : List (String × TypeExpr),
    relocatedEntries (compileMembers .legacy members) = compileMembers .uniform members
  | [] => rfl
  | (key, type) :: rest => by
    rw [compileMembers, relocatedEntries, type.relocated_compile_legacy,
      relocatedEntries_compileMembers rest, compileMembers]

end

/-! ## Nodes of compiled types -/

section

variable (placement : SignaturePlacement)

mutual

/-- Every node of a compiled type is itself a compiled type. -/
theorem Interface.exists_of_mem_nodes_compileNested : ∀ i : Interface,
    ∀ node ∈ (i.compileNested placement).nodes, ∃ type : TypeExpr, node = type.compile placement
  | ⟨name, ⟨members⟩, signatures⟩, node, hnode => by
    have hnodes : (Interface.compileNested placement ⟨name, ⟨members⟩, signatures⟩).nodes =
        (TypeExpr.object ⟨name, ⟨members⟩, signatures⟩).compile placement ::
          entryNodes (compileMembers placement members) := by
      cases placement <;> rfl
    rw [hnodes, List.mem_cons] at hnode
    rcases hnode with rfl | hnode
    · exact ⟨_, rfl⟩
    · exact exists_of_mem_entryNodes_compileMembers members node hnode

theorem TypeExpr.exists_of_mem_nodes_compile : ∀ type : TypeExpr,
    ∀ node ∈ (type.compile placement).nodes, ∃ type : TypeExpr, node = type.compile placement
  | .named token, _, hnode => ⟨.named token, List.mem_singleton.1 hnode⟩
  | .object inner, node, hnode => inner.exists_of_mem_nodes_compileNested node hnode

theorem exists_of_mem_entryNodes_compileMembers : ∀ members : List (String × TypeExpr),
    ∀ node ∈ entryNodes (compileMembers placement members),
      ∃ type : TypeExpr, node = type.compile placement
  | [], _, hnode => by cases hnode
  | (key, type) :: rest, node, hnode => by
    rcases List.mem_append.1 hnode with hnode | hnode
    · exact type.exists_of_mem_nodes_compile node hnode
    · exact exists_of_mem_entryNodes_compileMembers rest node hnode

end

end

theorem TypeExpr.description_compile_uniform (type : TypeExpr) :
    (type.compile .uniform).description = "" := by
  cases type with
  | named token => rfl
  | object inner =>
    obtain ⟨name, ⟨members⟩, signatures⟩ := inner
    rfl

theorem TypeExpr.comment_compile_legacy (type : TypeExpr) :
    (type.compile .legacy).comment = none := by
  cases type with
  | named token => rfl
  | object inner =>
    obtain ⟨name, ⟨members⟩, signatures⟩ := inner
    rfl

/-- The schema with index signatures in comments is the one with index signatures in descriptions,
rewritten. In the first no nested node has a description, and in the second none has a comment; they
are the same exactly if no object nested in the interface has an index signature. -/
theorem Interface.relocated_compile (i : Interface) :
    (i.compile .legacy).relocated = i.compile .uniform ∧
      (∀ node ∈ (i.compile .uniform).nodes, node.description = "") ∧
      (∀ node ∈ (i.compile .legacy).nodes, node.comment = none) ∧
      (i.compile .legacy = i.compile .uniform ↔
        ∀ level ∈ memberLevels i.members.entries, level.signatures = []) := by
  refine ⟨?_, ?_, ?_, ?_⟩
  · rw [Schema.relocated, compile, relocatedEntries_compileMembers]
    rfl
  · intro node hnode
    obtain ⟨type, rfl⟩ := exists_of_mem_entryNodes_compileMembers .uniform _ node hnode
    exact type.description_compile_uniform
  · intro node hnode
    obtain ⟨type, rfl⟩ := exists_of_mem_entryNodes_compileMembers .legacy _ node hnode
    exact type.comment_compile_legacy
  · rw [compile_legacy_eq_uniform_iff]
    simp [NestsSignatures]

end InterfaceSchema
