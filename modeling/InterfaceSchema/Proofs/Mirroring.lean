import InterfaceSchema.Proofs.Insertion
import InterfaceSchema.Proofs.Recovery
import InterfaceSchema.Proofs.Verdict

/-!
# Schemas as mirrors of interfaces

A compiled schema has a node wherever the interface has a member, reached by the same names in the
same order, and no other node. What a node holds is settled by the type of its member alone. The
index signatures of a level are kept as text in one slot, and the slot stays empty when the level
has none. No other schema is like this.

## Main definitions

* `TypeExpr.at?`, `PropertySchema.at?` — what a path of names leads to.
* `Keeps` — a slot for the index signatures of a level.
* `PropertySchema.Mirrors`, `Schema.Mirrors` — a node that mirrors a type, and a schema that mirrors
  an interface.
-/

namespace InterfaceSchema

/-! ## Paths of names -/

/-- The type that a path of names leads to from a type. -/
def TypeExpr.at? (t : TypeExpr) : List String → Option TypeExpr
  | [] => some t
  | name :: rest => (t.object?.bind (·.member? name)).bind (·.at? rest)

/-- The type of the member that a path of names leads to. No member is reached by no name. -/
def Interface.typeAt? (i : Interface) : List String → Option TypeExpr
  | [] => none
  | name :: rest => (i.member? name).bind (·.at? rest)

/-- The node that a path of names leads to from a node. -/
def PropertySchema.at? (p : PropertySchema) : List String → Option PropertySchema
  | [] => some p
  | name :: rest => (p.properties.bind (·.get? name)).bind (·.at? rest)

/-- The node that a path of names leads to from the root of a schema. -/
def Schema.nodeAt? (s : Schema) : List String → Option PropertySchema
  | [] => none
  | name :: rest => (s.properties.get? name).bind (·.at? rest)

/-! ## Mirrors -/

/-- A slot that keeps the index signatures of a level: it is empty if there are none, and holds
their text otherwise. -/
inductive Keeps : List IndexSignature → Option String → Prop where
  | nothing : Keeps [] none
  | text (s : IndexSignature) (rest : List IndexSignature) :
    Keeps (s :: rest) (some (encodeSignatures (s :: rest)))

/-- A node that mirrors the type of a member. The node of an object keeps the index signatures in
its description or in its comment, and leaves the other of the two empty. -/
inductive PropertySchema.Mirrors : SignaturePlacement → TypeExpr → PropertySchema → Prop where
  | word (placement : SignaturePlacement) (token : String) :
    Mirrors placement (.named token) ⟨"", token, none, none⟩
  | described {inner : Interface} {properties : FieldMap PropertySchema} {kept : Option String}
    (keys : properties.keys = inner.members.keys) (signatures : Keeps inner.signatures kept) :
    Mirrors .legacy (.object inner) ⟨kept.getD "", "object", some properties, none⟩
  | commented {inner : Interface} {properties : FieldMap PropertySchema} {kept : Option String}
    (keys : properties.keys = inner.members.keys) (signatures : Keeps inner.signatures kept) :
    Mirrors .uniform (.object inner) ⟨"", "object", some properties, kept⟩

/-- A schema that mirrors an interface. At the root, the index signatures are kept in the comment
under either placement. -/
structure Schema.Mirrors (placement : SignaturePlacement) (i : Interface) (s : Schema) : Prop where
  dialect : s.dialect = draft07Dialect
  title : s.title = i.name
  type : s.type = "object"
  description : s.description = none
  signatures : Keeps i.signatures s.comment
  keys : s.properties.keys = i.members.keys
  required : s.required = i.members.keys
  nodup : s.required.Nodup
  nodes : ∀ path,
    Option.Rel (PropertySchema.Mirrors placement) (i.typeAt? path) (s.nodeAt? path)

/-! ## Compiled types -/

theorem keeps_signatureText (signatures : List IndexSignature) :
    Keeps signatures (signatureText signatures) := by
  cases signatures with
  | nil => exact .nothing
  | cons s rest => exact .text s rest

theorem findEntry_compileMembers (placement : SignaturePlacement)
    (members : List (String × TypeExpr)) (name : String) :
    FieldMap.findEntry name (compileMembers placement members) =
      (FieldMap.findEntry name members).map (·.compile placement) := by
  induction members with
  | nil => rfl
  | cons e rest ih =>
    rw [compileMembers, FieldMap.findEntry, FieldMap.findEntry, ih]
    split <;> rfl

namespace TypeExpr

variable (placement : SignaturePlacement)

theorem mirrors_compile (t : TypeExpr) :
    PropertySchema.Mirrors placement t (t.compile placement) := by
  cases t with
  | named token => exact .word placement token
  | object inner =>
    obtain ⟨name, ⟨members⟩, signatures⟩ := inner
    have hkeys := keys_compileMembers placement members
    cases placement with
    | legacy => exact .described hkeys (keeps_signatureText signatures)
    | uniform => exact .commented hkeys (keeps_signatureText signatures)

/-- The properties of a compiled type are its compiled members. -/
theorem get?_properties_compile (t : TypeExpr) (name : String) :
    (t.compile placement).properties.bind (·.get? name) =
      (t.object?.bind (·.member? name)).map (·.compile placement) := by
  cases t with
  | named token => rfl
  | object inner =>
    rw [compile, Interface.properties_compileNested]
    exact findEntry_compileMembers placement inner.members.entries name

/-- A path leads to the compiled form of what it led to before. -/
theorem at?_compile (t : TypeExpr) (path : List String) :
    (t.compile placement).at? path = (t.at? path).map (·.compile placement) := by
  induction path generalizing t with
  | nil => rfl
  | cons name rest ih =>
    rw [PropertySchema.at?, at?, get?_properties_compile]
    cases t.object?.bind (·.member? name) with
    | none => rfl
    | some inner => exact ih inner

end TypeExpr

namespace Interface

variable (placement : SignaturePlacement)

theorem nodeAt?_compile (i : Interface) (path : List String) :
    (i.compile placement).nodeAt? path = (i.typeAt? path).map (·.compile placement) := by
  cases path with
  | nil => rfl
  | cons name rest =>
    have hget : (i.compile placement).properties.get? name =
        (i.member? name).map (·.compile placement) :=
      findEntry_compileMembers placement i.members.entries name
    rw [Schema.nodeAt?, typeAt?, hget]
    cases i.member? name with
    | none => rfl
    | some t => exact t.at?_compile placement rest

/-- The compiled schema mirrors its interface, node by node. -/
theorem compile_mirrors (i : Interface) (hi : i.DistinctMembers) :
    (i.compile placement).Mirrors placement i where
  dialect := rfl
  title := rfl
  type := rfl
  description := rfl
  signatures := keeps_signatureText i.signatures
  keys := keys_compileMembers placement i.members.entries
  required := rfl
  nodup := hi _ i.mem_levels_self
  nodes path := by
    rw [nodeAt?_compile]
    cases i.typeAt? path with
    | none => exact .none
    | some t => exact .some (t.mirrors_compile placement)

end Interface

/-! ## Mirrors are compiled -/

theorem Keeps.eq_signatureText {signatures : List IndexSignature} {kept : Option String}
    (h : Keeps signatures kept) : kept = signatureText signatures := by
  cases h <;> rfl

section

variable (placement : SignaturePlacement)

mutual

/-- Only the compiled type has mirrors wherever a path leads. -/
theorem TypeExpr.eq_compile : ∀ t : TypeExpr, (∀ level ∈ t.levels, level.members.Distinct) →
    ∀ p : PropertySchema,
      (∀ path, Option.Rel (PropertySchema.Mirrors placement) (t.at? path) (p.at? path)) →
        p = t.compile placement
  | .named token, _, p, h => by
    cases h [] with
    | some hp => cases hp with | word => rfl
  | .object ⟨name, ⟨members⟩, signatures⟩, hlevels, p, h => by
    have hmembers : ∀ properties : FieldMap PropertySchema, p.properties = some properties →
        properties.keys = members.map Prod.fst →
          properties = ⟨compileMembers placement members⟩ := by
      intro properties hp hkeys
      refine congrArg FieldMap.mk (compileMembers_unique members ?_ properties.entries hkeys ?_ ?_)
      · exact fun level hlevel => hlevels level (List.mem_cons_of_mem _ hlevel)
      · exact hlevels _ (Interface.mem_levels_self _)
      · intro key path
        have hpath := h (key :: path)
        rw [PropertySchema.at?, hp] at hpath
        exact hpath
    cases h [] with
    | some hp =>
      cases hp with
      | described keys kept =>
        rw [hmembers _ rfl keys, kept.eq_signatureText]
        rfl
      | commented keys kept =>
        rw [hmembers _ rfl keys, kept.eq_signatureText]
        rfl

theorem compileMembers_unique : ∀ members : List (String × TypeExpr),
    (∀ level ∈ memberLevels members, level.members.Distinct) →
      ∀ entries : List (String × PropertySchema), entries.map Prod.fst = members.map Prod.fst →
        (members.map Prod.fst).Nodup →
          (∀ key path, Option.Rel (PropertySchema.Mirrors placement)
            ((FieldMap.findEntry key members).bind (·.at? path))
            ((FieldMap.findEntry key entries).bind (·.at? path))) →
            entries = compileMembers placement members
  | [], _, entries, hkeys, _, _ => List.map_eq_nil_iff.1 hkeys
  | (k, t) :: rest, hlevels, (k', p) :: more, hkeys, hnodup, h => by
    obtain ⟨rfl, hmore⟩ := List.cons.inj hkeys
    obtain ⟨htype, hrest⟩ := forall_mem_memberLevels_cons hlevels
    obtain ⟨hk, hnodup⟩ := List.nodup_cons.1 hnodup
    have hhead : p = t.compile placement := by
      refine t.eq_compile htype p fun path => ?_
      simpa [FieldMap.findEntry] using h k' path
    have htail : more = compileMembers placement rest := by
      refine compileMembers_unique rest hrest more hmore hnodup fun key path => ?_
      by_cases hkey : k' = key
      · subst hkey
        rw [FieldMap.findEntry_eq_none_iff.2 hk, FieldMap.findEntry_eq_none_iff.2 (hmore ▸ hk)]
        exact .none
      · simpa [FieldMap.findEntry, hkey] using h key path
    rw [hhead, htail, compileMembers]

end

/-- No other schema mirrors an interface. -/
theorem Schema.Mirrors.eq_compile {placement : SignaturePlacement} {i : Interface} {s : Schema}
    (hi : i.DistinctMembers) (h : s.Mirrors placement i) : s = i.compile placement := by
  obtain ⟨name, ⟨members⟩, signatures⟩ := i
  have hproperties : s.properties = ⟨compileMembers placement members⟩ := by
    refine congrArg FieldMap.mk (compileMembers_unique placement members ?_ s.properties.entries
      h.keys (hi _ (Interface.mem_levels_self _)) fun key path => h.nodes (key :: path))
    exact fun level hlevel => hi level (List.mem_cons_of_mem _ hlevel)
  obtain ⟨hdialect, htitle, htype, hdescription, hkept, -, hrequired, -, -⟩ := h
  cases s
  rw [Interface.compile, Schema.mk.injEq]
  exact ⟨hdialect, htitle, hdescription, htype, hproperties, hrequired, hkept.eq_signatureText⟩

end

/-- The compiled schema mirrors its interface, and it is the only schema that does. -/
theorem Schema.mirrors_iff {i : Interface} (hi : i.DistinctMembers)
    (placement : SignaturePlacement) (s : Schema) :
    s.Mirrors placement i ↔ s = i.compile placement := by
  constructor
  · exact fun h => h.eq_compile hi
  · rintro rfl
    exact i.compile_mirrors placement hi

/-- Index signatures at the root and in a nested object, under both placements. -/
theorem Schema.mirrors_iff_nested :
    let i : Interface := ⟨"T", ⟨[("m", .object ⟨"m", ⟨[("x", .named "Date")]⟩,
      [⟨"string", .named "number"⟩]⟩), ("k", .named "")]⟩, [⟨"number", .object (.ofName "v")⟩]⟩
    i.DistinctMembers ∧ (i.compile .legacy).Mirrors .legacy i ∧
      (i.compile .uniform).Mirrors .uniform i ∧ ¬(Schema.ofTitle "T").Mirrors .legacy i := by
  intro i
  have hi : i.DistinctMembers := by decide
  refine ⟨hi, (mirrors_iff hi .legacy _).2 rfl, (mirrors_iff hi .uniform _).2 rfl, fun h => ?_⟩
  have heq := congrArg Schema.required ((mirrors_iff hi .legacy _).1 h)
  cases heq

end InterfaceSchema
